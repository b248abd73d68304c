import ProviderKit.Proofs.Server.Additions
import ProviderKit.Server.Apply
import ProviderKit.Server.Check
import ProviderKit.Server.Import
import ProviderKit.Server.Plan
import ProviderKit.Server.Upgrade

-- The steps of requests that carry nothing out. They add to the frame what they report, and call
-- nothing of the provider but what checks, compares or has its say in a plan.

namespace ProviderKit.Server

variable {σ δ α : Type} {P : Callback δ → Prop}

/-! ## Putting off and checking -/

theorem silent_providerDeferral (client : ClientCapabilities) :
    Rpc.Silent (providerDeferral client : Rpc σ δ (Option Deferral)) := fun _ => ⟨rfl, rfl⟩

theorem onlyReports_providerDeferral (client : ClientCapabilities) :
    Rpc.OnlyReports (providerDeferral client : Rpc σ δ (Option Deferral)) := fun f => .refl f

theorem onlyReports_checkDeferral (label : String) (client : ClientCapabilities)
    (deferred : Option Deferral) :
    Rpc.OnlyReports (checkDeferral label client deferred : Rpc σ δ Unit) :=
  (Rpc.onlyReports_report _).ite (Rpc.onlyReports_pure _)

theorem onlyReports_putOff (config : Described) :
    Rpc.OnlyReports (putOff config : Rpc σ δ (Option Value)) := by
  unfold putOff
  split
  · exact Rpc.onlyReports_pure _
  · exact Rpc.onlyReports_report_pure _ _

theorem adds_checkDeferral (label : String) (client : ClientCapabilities)
    (deferred : Option Deferral) :
    Rpc.Adds P (checkDeferral label client deferred : Rpc σ δ Unit) :=
  (onlyReports_checkDeferral label client deferred).adds

theorem adds_putOff (config : Described) :
    Rpc.Adds P (putOff config : Rpc σ δ (Option Value)) := (onlyReports_putOff config).adds

/-- What is put off is answered without asking the provider. -/
theorem adds_putOff_bind (config : Described) (failure : α)
    (give : Value → α) :
    Rpc.Adds P
      (do
        let some v ← putOff config | return failure
        return give v : Rpc σ δ α) := by
  refine (adds_putOff config).bind fun found => ?_
  cases found with
  | none => exact Rpc.adds_pure _
  | some v => exact Rpc.adds_pure _

theorem adds_checkFurther (config : Described) (check : Option (ConfigCheck σ)) :
    Rpc.Adds Callback.IsAside (checkFurther config check : Rpc σ δ Unit) := by
  unfold checkFurther
  split
  · refine Rpc.Adds.bind (Rpc.adds_call ?_ _ _) fun _ => Rpc.adds_pure _
    rfl
  · exact Rpc.adds_pure _

theorem adds_checkConfig (schema : PlainSchema) (raw : Value) (check : Option (ConfigCheck σ)) :
    Rpc.Adds Callback.IsAside (checkConfig schema raw check : Rpc σ δ Unit) :=
  (Rpc.adds_report _).bind fun _ => adds_checkFurther _ _

/-! ## Planning -/

theorem onlyReports_normalized (schema : PlainSchema) (v : Option Value) :
    Rpc.OnlyReports (normalized schema v : Rpc σ δ (Option Value)) := by
  unfold normalized
  split
  · exact Rpc.onlyReports_pure _
  · exact Rpc.onlyReports_report_pure _ _

theorem onlyReports_requestedChange (schema : PlainSchema) (r : PlanRequest) :
    Rpc.OnlyReports (requestedChange schema r : Rpc σ δ (Option Change)) := by
  refine (onlyReports_normalized _ _).bind fun config => (onlyReports_normalized _ _).bind
    fun prior => (onlyReports_normalized _ _).bind fun proposed =>
      (Rpc.onlyReports_providerMeta _).bind fun _ => ?_
  split
  · exact Rpc.onlyReports_pure _
  · exact Rpc.onlyReports_pure _

theorem adds_normalized (schema : PlainSchema) (v : Option Value) :
    Rpc.Adds P (normalized schema v : Rpc σ δ (Option Value)) :=
  (onlyReports_normalized schema v).adds

theorem adds_requestedChange (schema : PlainSchema) (r : PlanRequest) :
    Rpc.Adds P (requestedChange schema r : Rpc σ δ (Option Change)) :=
  (onlyReports_requestedChange schema r).adds

/-- The modifiers of attributes have their say in the plan, and carry nothing out. -/
theorem adds_modifyAttributes (schema : ActiveSchema σ) (c : Change) (p : Planned) :
    Rpc.Adds Callback.IsAside (modifyAttributes schema c p : Rpc σ δ Planned) := by
  refine (Rpc.adds_pure _).ite ((Rpc.adds_act _).bind fun m => ?_)
  refine Rpc.Adds.bind (Rpc.adds_noteAll ?_ _ _) fun _ => Rpc.adds_pure _
  exact fun _ => rfl

/-- The last stage of a plan only looks at it. -/
theorem adds_checkedPlan (c : Change) (p : Planned) :
    Rpc.Adds P
      (do
        if ← Rpc.failed then return p
        if c.proposed.isNull && !p.plan.isNull then
          Rpc.report [plannedOnDestroy]
          return p
        return { p with requiresReplace := Path.normalize p.requiresReplace } :
          Rpc σ δ Planned) :=
  Rpc.adds_failed.bind fun _ => (Rpc.adds_pure _).ite
    (((Rpc.adds_report _).bind fun _ => Rpc.adds_pure _).ite (Rpc.adds_pure _))

/-! ## Changing, importing and upgrading -/

theorem adds_conclude (p : Prepared σ) (plan : Value) (missing : Diagnostic)
    (answer : Resource.Changed) :
    Rpc.Adds Callback.IsAside (conclude p plan missing answer : Rpc σ δ ApplyResult) := by
  refine (Rpc.adds_encodePrivate _).bind fun privateBytes => Rpc.adds_failed.bind fun _ => ?_
  have hadds := Rpc.adds_reconcile_unless_failed (δ := δ) p.schema plan answer.state.raw
    fun state => ApplyResult.mk state privateBytes
  exact ((Rpc.adds_report _).bind fun _ => hadds).ite hadds

/-- How an import goes on once the deferral of the provider's answer is checked. -/
theorem adds_imported (typeName : String) (answer : Resource.Imported) :
    Rpc.Adds P
      (do
        if ← Rpc.failed then return .none
        if let some deferred := answer.deferred then return ⟨[], some deferred⟩
        if answer.state.isNull then
          Rpc.report [missingImportState]
          return .none
        let privateBytes ← Rpc.encodePrivate (.ofProvider answer.privateData)
        return ⟨[⟨typeName, answer.state.raw, privateBytes⟩], none⟩ : Rpc σ δ ImportResult) := by
  refine Rpc.adds_failed.bind fun _ => (Rpc.adds_pure _).ite ?_
  split
  · exact Rpc.adds_pure _
  · refine Rpc.Adds.ite ((Rpc.adds_report _).bind fun _ => Rpc.adds_pure _) ?_
    exact (Rpc.adds_encodePrivate _).bind fun _ => Rpc.adds_pure _

theorem onlyReports_upgradedValue (schema : PlainSchema) (answer : Resource.Upgraded) :
    Rpc.OnlyReports (upgradedValue schema answer : Rpc σ δ Value) := by
  unfold upgradedValue
  split
  · split
    · exact Rpc.onlyReports_pure _
    · exact Rpc.onlyReports_report_pure _ _
  · exact (Rpc.onlyReports_report_pure _ _).ite (Rpc.onlyReports_pure _)

theorem onlyReports_passThrough (schema : PlainSchema) (stored : Json) :
    Rpc.OnlyReports (passThrough schema stored : Rpc σ δ Value) := by
  unfold passThrough
  split
  · exact Rpc.onlyReports_pure _
  · exact Rpc.onlyReports_report_pure _ _

theorem adds_upgradedValue (schema : PlainSchema) (answer : Resource.Upgraded) :
    Rpc.Adds P (upgradedValue schema answer : Rpc σ δ Value) :=
  (onlyReports_upgradedValue schema answer).adds

theorem adds_passThrough (schema : PlainSchema) (stored : Json) :
    Rpc.Adds P (passThrough schema stored : Rpc σ δ Value) :=
  (onlyReports_passThrough schema stored).adds

end ProviderKit.Server
