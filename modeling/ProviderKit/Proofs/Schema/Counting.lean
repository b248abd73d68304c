import ProviderKit.Proofs.Schema.Checking
import ProviderKit.Proofs.Schema.Validated

-- How many objects a block may collect. Validation counts them in 32 bits, so its reports on the
-- limits of a block are right as long as the count fits, and wrong for most counts that do not.

namespace ProviderKit

open Validation

variable {β : Type}

/-! ## What is said of a number of objects -/

/-- Validation reports something under a summary, at a path. -/
def Schema.Reports (s : Schema β) (v : Value) (summary : String) (path : Path) : Prop :=
  ∃ d ∈ s.validate v, d.summary = summary ∧ d.path = some path

/-- A remark on a number of objects. -/
def Diagnostic.IsCount (d : Diagnostic) : Prop :=
  d.summary = "Insufficient blocks" ∨ d.summary = "Too many blocks"

theorem not_isCount_expectedObject (path : Path) (v : Value) :
    ¬ (expectedObject path v).IsCount := by
  have hsummary : (expectedObject path v).summary = "Expected object" := by
    unfold expectedObject
    split <;> rfl
  simp [Diagnostic.IsCount, hsummary]

theorem not_isCount_wrongType (path : Path) (expected : String) (v : Value) :
    ¬ (wrongType path expected v).IsCount := by
  have hsummary : (wrongType path expected v).summary = "Incorrect attribute value type" := rfl
  simp [Diagnostic.IsCount, hsummary]

theorem not_isCount_expectedBlock (path : Path) (shape : Shape) (v : Value) :
    ¬ (expectedBlock path shape v).IsCount := by
  have hsummary : (expectedBlock path shape v).summary =
      "Expected " ++ (shape.name ++ " for block " ++ path.display) := by
    rw [← String.append_assoc, ← String.append_assoc]
    rfl
  have hne : ∀ text other : String, other.toList.head? ≠ some 'E' →
      "Expected " ++ text ≠ other := by
    rintro text other hother rfl
    exact hother (by simp)
  rw [Diagnostic.IsCount, hsummary]
  rintro (h | h)
  · exact hne _ _ (by decide) h
  · exact hne _ _ (by decide) h

namespace Node

variable {n : Node β} {b : NestedBlock β} {path : Path} {v : Value} {count : Nat} {d : Diagnostic}

theorem not_isCount_mismatch (n : Node β) (path : Path) (v : Value) :
    ¬ (n.mismatch path v).IsCount := by
  rcases n.mismatch_cases path v with h | ⟨expected, h⟩ | ⟨shape, h⟩ <;> rw [h]
  · exact not_isCount_expectedObject path v
  · exact not_isCount_wrongType path expected v
  · exact not_isCount_expectedBlock path shape v

theorem not_isCount_of_mem_reportUnset (h : d ∈ n.reportUnset path) : ¬ d.IsCount := by
  rcases mem_reportUnset_cases h with rfl | ⟨minItems, rfl⟩ <;>
    simp [Diagnostic.IsCount, missingAttribute, missingBlock, Diagnostic.error, Diagnostic.atPath]

theorem not_isCount_of_mem_reportHere {view : View β} (h : d ∈ view.reportHere path v) :
    ¬ d.IsCount := by
  rcases View.mem_reportHere_cases h with ⟨name, rfl⟩ | ⟨inner, expected, found, rfl⟩
  · simp [Diagnostic.IsCount, unsupported, Diagnostic.error, Diagnostic.atPath]
  · exact not_isCount_wrongType inner expected found

/-- Counts are remarked on at blocks that collect objects, and nowhere else. -/
theorem exists_count_of_mem_remarks {w : Option Value} (h : d ∈ n.remarks path w)
    (hd : d.IsCount) : ∃ b v count, n = .nestedBlock b ∧ w = some v ∧ b.mode.count? v = some count ∧
      d ∈ ProviderKit.reportCount b.minItems b.maxItems path count := by
  rcases mem_remarks_cases h with h | rfl | ⟨v, hv, rfl | h | h⟩
  · exact absurd hd (not_isCount_of_mem_reportUnset h)
  · simp [Diagnostic.IsCount, readOnlyAttribute, Diagnostic.error, Diagnostic.atPath] at hd
  · exact absurd hd (n.not_isCount_mismatch path v)
  · exact absurd hd (not_isCount_of_mem_reportHere h)
  · obtain ⟨b, count, hn, hcount, hd⟩ := mem_reportCount_cases h
    exact ⟨b, v, count, hn, hv, hcount, hd⟩

/-- What is to be said of the number is said. -/
theorem mem_remarks_of_count (hcount : b.mode.count? v = some count)
    (h : d ∈ ProviderKit.reportCount b.minItems b.maxItems path count) :
    d ∈ (nestedBlock b).remarks path (some v) := by
  have hcontents : ∃ contents, (nestedBlock b).view.contents? v = some contents := by
    rw [view]
    cases hmode : b.mode <;> rw [hmode] at hcount <;> cases v <;> cases hcount <;> exact ⟨_, rfl⟩
  have hv : v.isKnown = true := by
    cases v
    case null | unknown => cases hmode : b.mode <;> rw [hmode] at hcount <;> cases hcount
    all_goals rfl
  obtain ⟨contents, hcontents⟩ := hcontents
  rw [remarks_of_isKnown _ _ hv, hcontents]
  refine List.mem_append_right _ ?_
  rw [reportCount, hcount]
  exact h

end Node

/-! ## Blocks that collect objects -/

/-- At a path, the schema declares a block, and the value collects so many objects as the block
asks for. -/
def Schema.CollectsAt (s : Schema β) (v : Value) (path : Path) (b : NestedBlock β) (count : Nat) :
    Prop :=
  ∃ place x, (Node.block s.root).DeclaresAlong path.steps (.nestedBlock b) ∧
    v.Spells place path.steps ∧ v.at? place = some x ∧ b.mode.count? x = some count

namespace Schema

variable {s : Schema β} {v : Value} {path : Path} {b : NestedBlock β} {count : Nat}

/-- Of one block, one number is remarked on. -/
theorem CollectsAt.reports_iff (h : s.CollectsAt v path b count)
    (hs : s.hasDistinctBlocks = true) (hv : v.Ordered) {summary : String}
    (hsummary : summary = "Insufficient blocks" ∨ summary = "Too many blocks") :
    s.Reports v summary path ↔
      ∃ d ∈ reportCount b.minItems b.maxItems path count, d.summary = summary := by
  obtain ⟨place, x, hblock, hspells, hx, hcount⟩ := h
  have hchecks := hblock.checks rfl hspells hx
  constructor
  · rintro ⟨d, hd, rfl, hpath⟩
    obtain ⟨path', m, w, hchecks', hd⟩ := mem_validate_iff.mp hd
    obtain ⟨b', y, count', rfl, rfl, hcount', hd⟩ := Node.exists_count_of_mem_remarks hd hsummary
    have hpath' : d.path = some path' := by
      rcases mem_reportCount_iff.mp hd with ⟨_, rfl⟩ | ⟨_, _, rfl⟩ <;> rfl
    cases hpath'.symm.trans hpath
    obtain ⟨hnode, hvalue⟩ := hchecks.unique hchecks' hs (fun z hz => by cases hz; exact hv) rfl rfl
    cases hnode
    cases hvalue
    cases hcount.symm.trans hcount'
    exact ⟨d, hd, rfl⟩
  · rintro ⟨d, hd, rfl⟩
    have hpath : d.path = some path := by
      rcases mem_reportCount_iff.mp hd with ⟨_, rfl⟩ | ⟨_, _, rfl⟩ <;> rfl
    exact ⟨d, mem_validate_iff.mpr ⟨path, _, _, hchecks, Node.mem_remarks_of_count hcount hd⟩, rfl,
      hpath⟩

theorem CollectsAt.tooFew_iff (h : s.CollectsAt v path b count) (hs : s.hasDistinctBlocks = true)
    (hv : v.Ordered) :
    s.Reports v "Insufficient blocks" path ↔ count % 4294967296 < b.minItems.toNat := by
  rw [h.reports_iff hs hv (.inl rfl)]
  constructor
  · rintro ⟨d, hd, hsummary⟩
    rcases mem_reportCount_iff.mp hd with ⟨hmin, _⟩ | ⟨_, _, rfl⟩
    · exact hmin
    · have hne : "Too many blocks" ≠ "Insufficient blocks" := by decide
      exact absurd hsummary hne
  · intro hmin
    exact ⟨_, mem_reportCount_iff.mpr (.inl ⟨hmin, rfl⟩), rfl⟩

theorem CollectsAt.tooMany_iff (h : s.CollectsAt v path b count) (hs : s.hasDistinctBlocks = true)
    (hv : v.Ordered) :
    s.Reports v "Too many blocks" path ↔
      0 < b.maxItems.toNat ∧ b.maxItems.toNat < count % 4294967296 := by
  rw [h.reports_iff hs hv (.inr rfl)]
  constructor
  · rintro ⟨d, hd, hsummary⟩
    rcases mem_reportCount_iff.mp hd with ⟨_, rfl⟩ | ⟨hzero, hmax, _⟩
    · have hne : "Insufficient blocks" ≠ "Too many blocks" := by decide
      exact absurd hsummary hne
    · exact ⟨hzero, hmax⟩
  · rintro ⟨hzero, hmax⟩
    exact ⟨_, mem_reportCount_iff.mpr (.inr ⟨hzero, hmax, rfl⟩), rfl⟩

/-- What validation reports on the limits of a block, wherever it stands, is right if and only if
the number of objects fits into 32 bits, or what is left of it there is, like the number itself, not
below the lower limit and past the upper limit, if there is one. -/
theorem limits_reported_iff (s : Schema β) (hs : s.hasDistinctBlocks = true) (hv : v.Ordered)
    (h : s.CollectsAt v path b count) :
    ((s.Reports v "Insufficient blocks" path ↔ count < b.minItems.toNat) ∧
      (s.Reports v "Too many blocks" path ↔
        0 < b.maxItems.toNat ∧ b.maxItems.toNat < count)) ↔
    count < 4294967296 ∨ b.minItems.toNat ≤ count % 4294967296 ∧
      (0 < b.maxItems.toNat → b.maxItems.toNat < count % 4294967296) := by
  have hmin : b.minItems.toNat < 4294967296 := b.minItems.toNat_lt
  have hmax : b.maxItems.toNat < 4294967296 := b.maxItems.toNat_lt
  rw [h.tooFew_iff hs hv, h.tooMany_iff hs hv]
  omega

end Schema

/-- One disk or two. -/
def rackBlock : NestedBlock Unit := ⟨.empty, .list, 1, 2⟩

/-- A rack of disks. -/
def rackSchema : PlainSchema := ⟨0, ⟨[], [("disks", rackBlock)], none⟩⟩

/-- A rack with some disks. -/
def rackOf (disks : List Value) : Value := .map [("disks", .list disks)]

theorem collectsAt_rackOf (disks : List Value) :
    rackSchema.CollectsAt (rackOf disks) (Path.root.field "disks") rackBlock disks.length := by
  have hspells : (rackOf disks).Spells [.entry "disks"] [.field "disks"] :=
    ⟨.list disks, _, _, rfl, .field "disks", rfl, rfl⟩
  have hblock : (Node.block rackSchema.root).DeclaresAlong [.field "disks"]
      (.nestedBlock rackBlock) := ⟨_, .block rfl List.mem_cons_self, rfl⟩
  exact ⟨[.entry "disks"], .list disks, hblock, hspells, rfl, rfl⟩

theorem ordered_rackOf {disks : List Value} (h : ∀ x ∈ disks, x.Ordered) :
    (rackOf disks).Ordered := Value.ordered_entry.mpr (.list h)

/-- Three disks are counted right. -/
theorem limits_reported_rack :
    let rack := rackOf [.null, .null, .null]
    rackSchema.hasDistinctBlocks = true ∧ rack.Ordered ∧
    rackSchema.CollectsAt rack (Path.root.field "disks") rackBlock 3 ∧
    (rackSchema.Reports rack "Insufficient blocks" (Path.root.field "disks") ↔
      3 < rackBlock.minItems.toNat) ∧
    (rackSchema.Reports rack "Too many blocks" (Path.root.field "disks") ↔
      0 < rackBlock.maxItems.toNat ∧ rackBlock.maxItems.toNat < 3) := by
  have hord : (rackOf [.null, .null, .null]).Ordered := ordered_rackOf (by simp)
  have hcollects := collectsAt_rackOf [.null, .null, .null]
  exact ⟨rfl, hord, hcollects,
    (rackSchema.limits_reported_iff rfl hord hcollects).mpr (.inl (by decide))⟩

/-- Of as many disks as 32 bits cannot count, none are counted: they are said to be too few, and not
said to be too many. -/
theorem rack_count_wraps :
    let rack := rackOf (List.replicate 4294967296 .null)
    rackSchema.CollectsAt rack (Path.root.field "disks") rackBlock 4294967296 ∧
    rackSchema.Reports rack "Insufficient blocks" (Path.root.field "disks") ∧
    ¬ 4294967296 < rackBlock.minItems.toNat ∧
    ¬ rackSchema.Reports rack "Too many blocks" (Path.root.field "disks") ∧
    0 < rackBlock.maxItems.toNat ∧ rackBlock.maxItems.toNat < 4294967296 := by
  have hord : (rackOf (List.replicate 4294967296 .null)).Ordered := by
    refine ordered_rackOf fun x hx => ?_
    rw [List.eq_of_mem_replicate hx]
    exact Value.ordered_null
  have hcollects := collectsAt_rackOf (List.replicate 4294967296 .null)
  rw [List.length_replicate] at hcollects
  refine ⟨hcollects, (hcollects.tooFew_iff rfl hord).mpr (by decide), by decide, fun h => ?_,
    by decide, by decide⟩
  obtain ⟨_, hmax⟩ := (hcollects.tooMany_iff rfl hord).mp h
  exact absurd hmax (by decide)

end ProviderKit
