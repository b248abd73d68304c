import ProviderKit.Proofs.Plan.Keeping
import ProviderKit.Proofs.Plan.Unchanged
import ProviderKit.Proofs.Server.Additions
import ProviderKit.Server.Configure
import ProviderKit.Server.Open
import ProviderKit.Server.Read

-- What is answered for a data source or an ephemeral resource that is put off: its
-- configuration, except inside one kind of set element. Elements are found by their values, so
-- an element that was filled out is no longer found, and what is configured inside it counts as
-- left out.

namespace ProviderKit.Server

variable {σ δ α : Type}

/-- The value holds the configuration exactly if filling the configuration out loses no element
of a set. -/
def KeptUnlessLost (config : Described) (v : Value) : Prop :=
  ∃ filled, config.schema.fillAbsent config.raw = .ok filled ∧
    (config.raw.Keeps v ↔
      ¬ (Position.described (.block config.schema.root)).LosesElement config.raw filled)

theorem keptUnlessLost_of_markUnknowns {config : Described} {v : Value}
    (h : config.schema.markUnknowns config.raw config.raw = .ok v) : KeptUnlessLost config v := by
  obtain ⟨filled, hfilled, hwalk⟩ := markUnknowns_eq_ok_iff.mp h
  have hroot : config.raw.reach? Path.root.steps = some config.raw := rfl
  exact ⟨filled, hfilled, keeps_iff_of_reached hroot (keeps_of_fillAbsent hfilled) hwalk⟩

theorem ensures_putOff (config : Described) :
    Rpc.Ensures (fun found => ∃ v, found = some v ∧ KeptUnlessLost config v)
      (putOff config : Rpc σ δ (Option Value)) := by
  unfold putOff
  cases h : config.schema.markUnknowns config.raw config.raw with
  | ok v => exact Rpc.ensures_pure ⟨v, rfl, keptUnlessLost_of_markUnknowns h⟩
  | error fault => exact Rpc.ensures_report_bind rfl (Rpc.adds_pure _)

/-- How an operation that may be put off goes on once it has an instance. -/
theorem deferred_rest {client : ClientCapabilities} {config : Described} {deferred : Deferral}
    {failure : α} {give : Value → Deferral → α} {rest : Rpc σ δ α} {R : α → Prop}
    {f : Frame σ δ} (hdeferred : (providerDeferral client f).1 = some deferred)
    (hgive : ∀ v, KeptUnlessLost config v → R (give v deferred)) :
    let work : Rpc σ δ α := do
      if ← Rpc.failed then return failure
      if let some deferred ← providerDeferral client then
        let some v ← putOff config | return failure
        return give v deferred
      rest
    Diagnostics.hasError (work f).2.diagnostics = false → R (work f).1 := by
  intro work hok
  dsimp only [work] at hok ⊢
  rw [rpc_bind, Rpc.failed_eq] at hok ⊢
  cases hf : Diagnostics.hasError f.diagnostics with
  | true =>
    rw [hf] at hok
    exact absurd (hf.symm.trans hok) Bool.noConfusion
  | false =>
    rw [hf] at hok
    dsimp only at hok ⊢
    rw [if_neg Bool.false_ne_true, rpc_bind, hdeferred] at hok ⊢
    refine (ensures_putOff config).bind (R := R) ?_ ?_ _ hok
    · rintro _ ⟨v, rfl, hv⟩
      exact Rpc.ensures_pure (hgive v hv)
    · intro found hnone
      cases found with
      | none => exact Rpc.adds_pure _
      | some v => exact Rpc.adds_pure _

/-- A data source and an ephemeral resource that are put off answer their configuration, unless
an element of a set is lost. -/
theorem deferral_keeps_configuration_iff (server : Server σ δ) (world : σ) (f : Frame σ δ)
    (schema : ActiveSchema σ) (deferred : Deferral) :
    (∀ (r : ReadDataRequest) (actions : DataSource.Actions σ),
      freshDataSource r.typeName ⟨world, server, [], []⟩ = (some (actions, schema), f) →
      (providerDeferral r.client f).1 = some deferred →
      let answer := ((readDataSource r).run server world).1.1
      Diagnostics.hasError answer.diagnostics = false →
      answer.result.deferred = some deferred ∧
        KeptUnlessLost ⟨r.config.getD .null, schema.plain⟩ answer.result.state) ∧
    ∀ (r : OpenRequest) (actions : EphemeralResource.Actions σ),
      freshEphemeral r.typeName ⟨world, server, [], []⟩ = (some (actions, schema), f) →
      (providerDeferral r.client f).1 = some deferred →
      let answer := ((openEphemeral r).run server world).1.1
      Diagnostics.hasError answer.diagnostics = false →
      answer.result.deferred = some deferred ∧
        KeptUnlessLost ⟨r.config.getD .null, schema.plain⟩ answer.result.result := by
  refine ⟨fun r actions hfresh hdeferred hok => ?_, fun r actions hfresh hdeferred hok => ?_⟩
  · rw [Rpc.run_eq, readDataSource, rpc_bind, hfresh] at hok ⊢
    exact deferred_rest hdeferred (R := fun result => result.deferred = some deferred ∧
      KeptUnlessLost _ result.state) (fun v hv => ⟨rfl, hv⟩) hok
  · rw [Rpc.run_eq, openEphemeral, rpc_bind, hfresh] at hok ⊢
    exact deferred_rest hdeferred (R := fun result => result.deferred = some deferred ∧
      KeptUnlessLost _ result.result) (fun v hv => ⟨rfl, hv⟩) hok

/-- A set of rules with a name, which the provider may decide, and a port. -/
def portSchema : ActiveSchema Nat :=
  let name : Attribute (Behaviour Nat) :=
    ⟨.string, .optionalComputed, none, none, none, ⟨[], none⟩⟩
  let port : Attribute (Behaviour Nat) := ⟨.string, .optionalOnly, none, none, none, ⟨[], none⟩⟩
  let rules : Attribute (Behaviour Nat) :=
    ⟨.dynamic, .optionalOnly, none, some ⟨.set, [("name", name), ("port", port)]⟩, none,
      ⟨[], none⟩⟩
  ⟨0, ⟨[("rules", rules)], [], none⟩⟩

/-- A provider that puts everything off once it is configured. -/
def waitingProvider : Provider Nat Unit :=
  { loneProvider portSchema with
    configure := fun _ => pure ({ SharedData.none with deferred := some .providerConfigUnknown }, [])
    dataSources := pure [pure {
      name := fun provider => pure (provider ++ "_thing")
      declare := pure ⟨portSchema, []⟩
      configure := none
      actions := ⟨fun r => pure r.start, none⟩ }]
    ephemeralResources := pure [pure {
      name := fun provider => pure (provider ++ "_thing")
      declare := pure ⟨portSchema, []⟩
      configure := none
      actions := ⟨fun r => pure r.start, none, none, none⟩ }] }

def waitingServer : Server Nat Unit :=
  let started : Server Nat Unit := (Server.start waitingProvider .standard 0).1
  ((configureProvider ⟨some (.map []), "1.0.0", ⟨true⟩⟩).run started 0).1.2

/-- One rule with a name, in which the port does not occur. -/
def portlessRule : Value := .map [("rules", .list [.map [("name", .string "web")]])]

def portlessRead : ReadDataRequest := ⟨"lone_thing", some portlessRule, none, ⟨true⟩⟩

def portlessOpen : OpenRequest := ⟨"lone_thing", some portlessRule, ⟨true⟩⟩

theorem waiting_keeps_portlessRule_iff :
    let read := ((readDataSource portlessRead).run waitingServer 0).1.1
    let opened := ((openEphemeral portlessOpen).run waitingServer 0).1.1
    (Diagnostics.hasError read.diagnostics = false ∧
      read.result.deferred = some .providerConfigUnknown ∧
      KeptUnlessLost ⟨portlessRule, portSchema.plain⟩ read.result.state) ∧
    Diagnostics.hasError opened.diagnostics = false ∧
      opened.result.deferred = some .providerConfigUnknown ∧
      KeptUnlessLost ⟨portlessRule, portSchema.plain⟩ opened.result.result := by
  refine ⟨⟨rfl, ?_⟩, rfl, ?_⟩
  · exact (deferral_keeps_configuration_iff waitingServer 0 _ portSchema _).1 portlessRead _ rfl rfl
      rfl
  · exact (deferral_keeps_configuration_iff waitingServer 0 _ portSchema _).2 portlessOpen _ rfl rfl
      rfl

/-- The port that is filled in takes the name of the rule with it. -/
theorem waiting_loses_rule_name :
    let read := ((readDataSource portlessRead).run waitingServer 0).1.1
    let opened := ((openEphemeral portlessOpen).run waitingServer 0).1.1
    let answered : Value := .map [("rules", .list [.map [("name", .unknown), ("port", .null)]])]
    read.diagnostics = [] ∧ read.result = ⟨answered, some .providerConfigUnknown⟩ ∧
      opened.diagnostics = [] ∧ opened.result = ⟨answered, [], none, some .providerConfigUnknown⟩ ∧
      ¬ portlessRule.Keeps answered := by
  refine ⟨rfl, rfl, rfl, rfl, fun h => ?_⟩
  obtain ⟨_, hrules, h⟩ := h.get? (k := "rules") rfl
  cases hrules
  obtain ⟨_, hrule, h⟩ := h.getElem? (i := 0) rfl
  cases hrule
  obtain ⟨_, hname, h⟩ := h.get? (k := "name") rfl
  cases hname
  exact absurd (Value.Keeps.unknown_iff.mp h) (by decide)

end ProviderKit.Server
