import ProviderKit.Proofs.Server.Asides
import ProviderKit.Proofs.Server.Readiness
import ProviderKit.Proofs.Plan.Unchanged

-- Whether the state that an upgrade ends with can be used. It can where the stored state is taken
-- as it is. An upgrader may give a document or a state: the document is checked for its shape and
-- not for being null, the state for being null and not for its shape.

namespace ProviderKit.Server

variable {σ δ : Type}

/-- There is a state, and it has the shape of the schema. -/
def UsableState (schema : PlainSchema) (state : Value) : Prop :=
  state.isNull = false ∧ schema.checkShape state = .ok ()

/-- What an upgrader gave is not what it should be, and nothing reports it: a document that is
null, or a state without the shape of the schema. -/
def SlipsThrough (schema : PlainSchema) (upgraded : Resource.Upgraded) : Prop :=
  upgraded.document = some .null ∨
    upgraded.document = none ∧ schema.checkShape upgraded.state.raw ≠ .ok ()

/-- An upgrader was asked to upgrade the stored state, and gave this. -/
inductive GivesUpgrade (f : Frame σ δ) (r : UpgradeRequest) : Resource.Upgraded → Prop
  | asked {stored : Json} {entry : Entry σ (Resource σ δ) Resource.Capabilities}
      {active : ActiveSchema σ} {g h : Frame σ δ} {actions : Resource.Actions σ}
      {list : StateM σ (List (Int × Resource.StateUpgrader σ))}
      {upgrader : Resource.StateUpgrader σ} {state : Option Described}
      (hstored : r.stored = some stored)
      (hresolve : Rpc.resolve resourceSlot r.typeName f = (some (entry, active), g))
      (hversion : r.version ≠ active.plain.version)
      (hinstance : Rpc.instantiate resourceSlot r.typeName entry.capabilities.configure
        entry.factory g = (actions, h))
      (hlist : (actions.within entry.capabilities).upgraders = some list)
      (hupgrader : (list h.world).1.lookup r.version = some upgrader)
      (hstate : typedState upgrader stored = .ok state) :
      GivesUpgrade f r (upgrader.upgrade ⟨stored, state, active.plain⟩ (list h.world).2).1

/-- No other upgrader is asked. -/
theorem GivesUpgrade.unique {f : Frame σ δ} {r : UpgradeRequest} {u v : Resource.Upgraded}
    (hu : GivesUpgrade f r u) (hv : GivesUpgrade f r v) : u = v := by
  obtain ⟨hstored, hresolve, -, hinstance, hlist, hupgrader, hstate⟩ := hu
  obtain ⟨hstored', hresolve', -, hinstance', hlist', hupgrader', hstate'⟩ := hv
  cases hstored.symm.trans hstored'
  cases hresolve.symm.trans hresolve'
  cases hinstance.symm.trans hinstance'
  cases hlist.symm.trans hlist'
  cases hupgrader.symm.trans hupgrader'
  cases hstate.symm.trans hstate'
  rfl

theorem isNull_ofJson {document : Json} : (Value.ofJson document).isNull = true ↔ document = .null := by
  cases document with
  | string s =>
    unfold Value.ofJson
    split <;> simp [Value.isNull]
  | _ => simp [Value.ofJson, Value.isNull]

/-! ## The three ways to end -/

/-- Stored state of the current version that is taken as it is can be used. -/
theorem usable_passThrough {schema : PlainSchema} {stored : Json} (hstored : stored ≠ .null) :
    Rpc.Ensures (UsableState schema) (passThrough schema stored : Rpc σ δ Value) := by
  unfold passThrough
  cases hshape : schema.checkShape (.ofJson stored) with
  | error fault => exact Rpc.ensures_report_bind rfl (Rpc.adds_pure _)
  | ok _ =>
    refine Rpc.ensures_pure ⟨?_, hshape⟩
    exact Bool.eq_false_iff.mpr fun hnull => hstored (isNull_ofJson.mp hnull)

/-- A document that counts slips through if it is null, and a state if it has not the shape. -/
theorem usable_upgradedValue_iff (schema : PlainSchema) (upgraded : Resource.Upgraded) :
    Rpc.Ensures (fun state => UsableState schema state ↔ ¬ SlipsThrough schema upgraded)
      (upgradedValue schema upgraded : Rpc σ δ Value) := by
  unfold upgradedValue UsableState SlipsThrough
  cases upgraded.document with
  | some document =>
    dsimp only
    cases hshape : schema.checkShape (.ofJson document) with
    | error fault => exact Rpc.ensures_report_bind rfl (Rpc.adds_pure _)
    | ok _ =>
      refine Rpc.ensures_pure ?_
      rw [hshape, ← Bool.not_eq_true, isNull_ofJson]
      simp
  | none =>
    dsimp only
    cases hnull : upgraded.state.isNull with
    | true => exact Rpc.ensures_report_bind rfl (Rpc.adds_pure _)
    | false =>
      refine Rpc.ensures_pure ?_
      change upgraded.state.raw.isNull = false at hnull
      rw [hnull]
      simp

/-- An upgrader whose answer counts had state to upgrade that fits its own schema. -/
theorem usable_runUpgrader_iff {schema : PlainSchema} {upgrader : Resource.StateUpgrader σ}
    {stored : Json} {f : Frame σ δ}
    (hok : Diagnostics.hasError (runUpgrader schema upgrader stored f).2.diagnostics = false) :
    ∃ state, typedState upgrader stored = .ok state ∧
      (UsableState schema (runUpgrader schema upgrader stored f).1 ↔
        ¬ SlipsThrough schema (upgrader.upgrade ⟨stored, state, schema⟩ f.world).1) := by
  unfold runUpgrader at hok ⊢
  cases hstate : typedState upgrader stored with
  | error fault =>
    rw [hstate] at hok
    exact Bool.noConfusion (hok.symm.trans (Rpc.hasError_report_bind rfl (Rpc.adds_pure _) f))
  | ok state =>
    rw [hstate] at hok
    dsimp only at hok ⊢
    rw [rpc_bind] at hok ⊢
    obtain ⟨-, hunfailed⟩ := Rpc.failed_bind_of_unfailed hok (Rpc.adds_pure _)
    rw [hunfailed, if_neg Bool.false_ne_true] at hok ⊢
    exact ⟨state, rfl, usable_upgradedValue_iff schema _ _ hok⟩

/-! ## Any upgrade -/

/-- How an upgrade of state that was stored under another version goes on. -/
theorem usable_upgraders_iff {r : UpgradeRequest} {stored : Json}
    {entry : Entry σ (Resource σ δ) Resource.Capabilities} {active : ActiveSchema σ}
    {f g : Frame σ δ} (hstored : r.stored = some stored)
    (hresolve : Rpc.resolve resourceSlot r.typeName f = (some (entry, active), g))
    (hversion : r.version ≠ active.plain.version) :
    let rest : Rpc σ δ Value := do
      let actions ←
        Rpc.instantiate resourceSlot r.typeName entry.capabilities.configure entry.factory
      if ← Rpc.failed then return .null
      let some list := (actions.within entry.capabilities).upgraders
        | Rpc.report [noUpgraders r.version]
          return .null
      let upgraders ← Rpc.act list
      let some upgrader := upgraders.lookup r.version
        | Rpc.report [missingUpgrader r.version]
          return .null
      runUpgrader active.plain upgrader stored
    Diagnostics.hasError (rest g).2.diagnostics = false →
      (UsableState active.plain (rest g).1 ↔
        ¬ ∃ upgraded, GivesUpgrade f r upgraded ∧ SlipsThrough active.plain upgraded) := by
  intro rest hok
  dsimp only [rest] at hok ⊢
  rw [rpc_bind] at hok ⊢
  cases hinstance : Rpc.instantiate (σ := σ) (δ := δ) resourceSlot r.typeName
    entry.capabilities.configure entry.factory g with
  | mk actions h =>
  rw [hinstance] at hok
  obtain ⟨-, hunfailed⟩ := Rpc.failed_bind_of_unfailed hok (Rpc.adds_pure _)
  rw [hunfailed, if_neg Bool.false_ne_true] at hok ⊢
  cases hlist : (actions.within entry.capabilities).upgraders with
  | none =>
    rw [hlist] at hok
    exact Bool.noConfusion (hok.symm.trans (Rpc.hasError_report_bind rfl (Rpc.adds_pure _) h))
  | some list =>
    rw [hlist] at hok
    dsimp only at hok ⊢
    rw [rpc_bind, Rpc.act_eq] at hok ⊢
    dsimp only at hok ⊢
    cases hupgrader : (list h.world).1.lookup r.version with
    | none =>
      rw [hupgrader] at hok
      exact Bool.noConfusion (hok.symm.trans (Rpc.hasError_report_bind rfl (Rpc.adds_pure _) _))
    | some upgrader =>
      rw [hupgrader] at hok
      obtain ⟨state, hstate, hiff⟩ := usable_runUpgrader_iff hok
      have hgives := GivesUpgrade.asked hstored hresolve hversion hinstance hlist hupgrader hstate
      refine hiff.trans (not_congr ⟨fun hslips => ⟨_, hgives, hslips⟩, ?_⟩)
      rintro ⟨upgraded, hother, hslips⟩
      exact hgives.unique hother ▸ hslips

theorem usable_upgradeResource_iff {r : UpgradeRequest} {stored : Json}
    (hstored : r.stored = some stored) (hnull : stored ≠ .null) {f : Frame σ δ}
    (hok : Diagnostics.hasError (upgradeResource r f).2.diagnostics = false) :
    ∃ entry active g, Rpc.resolve resourceSlot r.typeName f = (some (entry, active), g) ∧
      (UsableState active.plain (upgradeResource r f).1 ↔
        ¬ ∃ upgraded, GivesUpgrade f r upgraded ∧ SlipsThrough active.plain upgraded) := by
  have hready := Rpc.ensures_resolve (δ := δ) resourceSlot r.typeName f
  unfold upgradeResource at hok ⊢
  rw [hstored] at hok ⊢
  dsimp only at hok ⊢
  rw [rpc_bind] at hok ⊢
  cases hresolve : Rpc.resolve (σ := σ) (δ := δ) resourceSlot r.typeName f with
  | mk found g =>
  rw [hresolve] at hok hready
  cases found with
  | none => exact absurd (hready hok) Bool.false_ne_true
  | some found =>
    obtain ⟨entry, active⟩ := found
    refine ⟨entry, active, g, rfl, ?_⟩
    dsimp only at hok ⊢
    by_cases hversion : r.version = active.plain.version
    · rw [if_pos hversion] at hok ⊢
      refine iff_of_true (usable_passThrough hnull g hok) ?_
      -- State of the current version is no upgrader's business.
      rintro ⟨_, ⟨_, hresolve', hversion', _, _, _, _⟩, _⟩
      cases hresolve.symm.trans hresolve'
      exact hversion' hversion
    · rw [if_neg hversion] at hok ⊢
      exact usable_upgraders_iff hstored hresolve hversion hok

/-- An upgrade of stored state that ends without an error ends with usable state, unless an
upgrader's answer slips through. -/
theorem upgraded_state_usable_iff (server : Server σ δ) (world : σ) (r : UpgradeRequest)
    (stored : Json) (hstored : r.stored = some stored) (hnull : stored ≠ .null) :
    let f : Frame σ δ := ⟨world, server, [], []⟩
    let answer := ((upgradeResource r).run server world).1.1
    Diagnostics.hasError answer.diagnostics = false →
    ∃ entry active g, Rpc.resolve resourceSlot r.typeName f = (some (entry, active), g) ∧
      (UsableState active.plain answer.result ↔
        ¬ ∃ upgraded, GivesUpgrade f r upgraded ∧ SlipsThrough active.plain upgraded) :=
  usable_upgradeResource_iff hstored hnull

/-- The schema of the named thing in its next version. -/
def nextNamedSchema : ActiveSchema Nat := { namedSchema with version := 1 }

/-- The actions of a resource that upgrades state of version 0 so. -/
def upgradingActions (upgrade : Resource.UpgradeRequest → Resource.Upgraded) :
    Resource.Actions Nat :=
  let upgrader : Resource.StateUpgrader Nat := ⟨none, fun r => pure (upgrade r)⟩
  { idleActions Nat with upgraders := some (pure [(0, upgrader)]) }

/-- The answer to an upgrade of the named thing from version 0. -/
def namedUpgrade (upgrade : Resource.UpgradeRequest → Resource.Upgraded) : Answer Unit Value :=
  let r : UpgradeRequest := ⟨"lone_thing", 0, some (.object [("name", .string "a")])⟩
  ((upgradeResource r).run (actingServer nextNamedSchema (upgradingActions upgrade)) 0).1.1

/-- A document that fits is used as it is. -/
theorem fitting_document_usable :
    let answer := namedUpgrade fun r => { r.start with document := some r.stored }
    Diagnostics.hasError answer.diagnostics = false ∧
      UsableState nextNamedSchema.plain answer.result := by
  refine ⟨rfl, ?_⟩
  obtain ⟨entry, active, g, hresolve, hiff⟩ := upgraded_state_usable_iff
    (actingServer nextNamedSchema
      (upgradingActions fun r => { r.start with document := some r.stored })) 0
    ⟨"lone_thing", 0, some (.object [("name", .string "a")])⟩ _ rfl (by simp) rfl
  cases hresolve
  refine hiff.mpr ?_
  rintro ⟨_, ⟨hstored, hresolve, -, hinstance, hlist, hupgrader, hstate⟩, hslips⟩
  cases hstored
  cases hresolve
  cases hinstance
  cases hlist
  cases hupgrader
  cases hstate
  rcases hslips with hslips | ⟨hslips, -⟩ <;> cases hslips

/-- A document that is null loses the stored state, and a state may be of any shape. -/
theorem null_document_loses_state :
    let lost := namedUpgrade fun r => { r.start with document := some .null }
    let unfit := namedUpgrade fun r => { r.start with state := ⟨.string "a", r.schema⟩ }
    (Diagnostics.hasError lost.diagnostics = false ∧ lost.result = .null ∧
      ¬ UsableState nextNamedSchema.plain lost.result) ∧
    Diagnostics.hasError unfit.diagnostics = false ∧ unfit.result = .string "a" ∧
      ¬ UsableState nextNamedSchema.plain unfit.result := by
  refine ⟨⟨rfl, rfl, ?_⟩, rfl, rfl, ?_⟩
  · rintro ⟨hnull, -⟩
    cases hnull
  · rintro ⟨-, hshape⟩
    cases hshape

end ProviderKit.Server
