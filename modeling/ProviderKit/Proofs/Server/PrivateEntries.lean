import ProviderKit.Proofs.PrivateState.RoundTrip
import ProviderKit.Proofs.Server.ProviderData

-- What becomes of private state. Providers see and replace only their own data, so whatever they
-- do, an answer without an error has the entries of the framework that the request had. A plan and
-- a refresh that leave the provider's data as it was give back the very bytes they were given.

namespace ProviderKit

variable {σ δ α γ : Type}

/-! ## Private bytes of requests and results -/

/-- The private state that a request comes with, if it leads to an answer that has one too. -/
def Request.privateBytes? : Request → Option Bytes
  | .planResource r => some r.privateBytes
  | .readResource r => some r.privateBytes
  | .applyResource r | .createResource r | .updateResource r | .deleteResource r =>
    some r.privateBytes
  | .renewEphemeral r => some r.privateBytes
  | _ => none

/-- The request changes nothing but what is known: it plans or refreshes. -/
def Request.changesNothing : Request → Bool
  | .planResource _ | .readResource _ => true
  | _ => false

namespace Server

def Result.privateBytes? : Result → Option Bytes
  | .plan r => some r.privateBytes
  | .read r => some r.privateBytes
  | .apply r => some r.privateBytes
  | .renewed r => some r.privateBytes
  | _ => none

/-! ## What is stored -/

/-- What is kept of private state is decoded as what was given, with the provider's data as it is
in the end. If that is as it was and nothing is changed, the bytes are those that were given. -/
def KeepsPrivate (f : Frame σ δ) (request : Request) (given kept : Bytes) : Prop :=
  ∃ data, LeavesData f request data ∧
    PrivateState.decode kept = ({ (PrivateState.decode given).1 with provider := data }, []) ∧
    (request.changesNothing = true → data = (PrivateState.decode given).1.provider → kept = given)

theorem gives_encodePrivate {f : Frame σ δ} {request : Request} {data : ProviderData}
    (hleaves : LeavesData f request data) (hchanges : request.changesNothing = false)
    (given : Bytes) :
    Rpc.Gives (KeepsPrivate f request given)
      (Rpc.encodePrivate { (PrivateState.decode given).1 with provider := data } :
        Rpc σ δ Bytes) := by
  intro g
  refine ⟨data, hleaves, ?_, fun h => ?_⟩
  · exact PrivateState.decode_encode ((PrivateState.isWellFormed_decode given).withProvider data)
  · exact Bool.noConfusion (hchanges.symm.trans h)

/-- Bytes that were decoded without an error are kept as long as they say the same. -/
theorem gives_threadPrivate {f : Frame σ δ} {request : Request} {data : ProviderData}
    {given : Bytes} (hleaves : LeavesData f request data)
    (hgiven : Diagnostics.hasError (PrivateState.decode given).2 = false) :
    let prior := (PrivateState.decode given).1
    Rpc.Gives (KeepsPrivate f request given)
      (Rpc.threadPrivate given prior { prior with provider := data } : Rpc σ δ Bytes) := by
  intro prior g
  unfold Rpc.threadPrivate
  by_cases hsame : { prior with provider := data } = prior
  · rw [if_pos hsame]
    refine ⟨data, hleaves, ?_, fun _ _ => rfl⟩
    have hdecode : PrivateState.decode given = (prior, []) :=
      Prod.ext rfl (PrivateState.decode_silent_of_not_failed hgiven)
    exact hdecode.trans (congrArg (·, []) hsame.symm)
  · rw [if_neg hsame]
    refine ⟨data, hleaves, ?_, fun _ h => ?_⟩
    · exact PrivateState.decode_encode ((PrivateState.isWellFormed_decode given).withProvider data)
    · subst h
      exact absurd rfl hsame

/-! ## Refreshing -/

theorem gives_refreshed {r : ReadRequest} {f : Frame σ δ} {answer : Resource.Refreshed}
    (schema : ActiveSchema σ) (current : Value)
    (hleaves : LeavesData f (.readResource r) answer.privateData)
    (hgiven : Diagnostics.hasError (PrivateState.decode r.privateBytes).2 = false) :
    let prior := (PrivateState.decode r.privateBytes).1
    Rpc.Gives (fun result => KeepsPrivate f (.readResource r) r.privateBytes result.privateBytes)
      (do
        checkDeferral "Resource" r.client answer.deferred
        let privateBytes ←
          Rpc.threadPrivate r.privateBytes prior { prior with provider := answer.privateData }
        let found : ReadResult := ⟨answer.state.raw, privateBytes, answer.deferred⟩
        if ← Rpc.failed then return found
        let state ← Rpc.reconcile schema current found.state
        return { found with state := state } : Rpc σ δ ReadResult) := by
  refine Rpc.gives_bind fun _ => (gives_threadPrivate hleaves hgiven).bind fun privateBytes h => ?_
  refine Rpc.gives_bind fun failed => ?_
  cases failed with
  | true => exact Rpc.gives_pure h
  | false => exact Rpc.gives_bind fun state => Rpc.gives_pure h

theorem readResource_keepsPrivate {r : ReadRequest} {f : Frame σ δ}
    (hok : Diagnostics.hasError (readResource r f).2.diagnostics = false) :
    KeepsPrivate f (.readResource r) r.privateBytes (readResource r f).1.privateBytes := by
  unfold readResource at hok ⊢
  cases hcurrent : r.currentState with
  | none =>
    rw [hcurrent] at hok
    exact Bool.noConfusion (hok.symm.trans (Rpc.hasError_report_bind rfl (Rpc.adds_pure _) f))
  | some current =>
    rw [hcurrent] at hok
    dsimp only at hok ⊢
    rw [rpc_bind] at hok ⊢
    cases hfresh : freshResource (δ := δ) r.typeName f with
    | mk ready g =>
    rw [hfresh] at hok
    cases ready with
    | none => exact absurd (isSome_of_freshResource hfresh hok) Bool.false_ne_true
    | some ready =>
      obtain ⟨actions, schema⟩ := ready
      dsimp only at hok ⊢
      obtain ⟨hgiven, hnext⟩ := decodePrivate_bind_of_unfailed hok fun _ => Rpc.adds_pure _
      rw [hnext, if_neg Bool.false_ne_true, rpc_bind]
      cases hdeferral : (providerDeferral r.client g).1 with
      | some deferral => exact ⟨_, .putOff hfresh hdeferral,
          Prod.ext rfl (PrivateState.decode_silent_of_not_failed hgiven), fun _ _ => rfl⟩
      | none => exact gives_refreshed schema current (.read hcurrent hfresh hdeferral) hgiven _

/-! ## Planning -/

/-- What a request asks for is missing only where one of its values does not fit the schema. -/
theorem ensures_normalized (schema : PlainSchema) (v : Option Value) :
    Rpc.Ensures (fun filled => filled.isSome = true)
      (normalized schema v : Rpc σ δ (Option Value)) := by
  unfold normalized
  split
  · exact Rpc.ensures_pure rfl
  · exact Rpc.ensures_report_bind rfl (Rpc.adds_pure _)

theorem ensures_requestedChange (schema : PlainSchema) (r : PlanRequest) :
    Rpc.Ensures (fun change => change.isSome = true)
      (requestedChange schema r : Rpc σ δ (Option Change)) := by
  intro f hok
  -- All three values are looked at, and what is reported of one is not lost with the next.
  let g := (normalized schema r.config f).2
  let h := (normalized schema r.priorState g).2
  have hend : (requestedChange schema r f).2 = (normalized schema r.proposedState h).2 := by
    unfold requestedChange
    rw [rpc_bind, rpc_bind, rpc_bind, rpc_bind]
    cases (normalized schema r.config f).1 with
    | none => rfl
    | some config =>
      cases (normalized schema r.priorState g).1 with
      | none => rfl
      | some prior => cases (normalized schema r.proposedState h).1 <;> rfl
  rw [hend] at hok
  have hproposed := ensures_normalized schema r.proposedState h hok
  have hokh := (adds_normalized (P := fun _ => True) schema r.proposedState h).not_hasError hok
  have hprior := ensures_normalized schema r.priorState g hokh
  have hokg := (adds_normalized (P := fun _ => True) schema r.priorState g).not_hasError hokh
  have hconfig := ensures_normalized schema r.config f hokg
  obtain ⟨config, hconfig⟩ := Option.isSome_iff_exists.mp hconfig
  obtain ⟨prior, hprior⟩ := Option.isSome_iff_exists.mp hprior
  obtain ⟨proposed, hproposed⟩ := Option.isSome_iff_exists.mp hproposed
  unfold requestedChange
  rw [rpc_bind, hconfig, rpc_bind, hprior, rpc_bind, hproposed]
  rfl

/-- How planning goes on once it is known what is asked for. -/
theorem planned_keepsPrivate {r : PlanRequest} {actions : Resource.Actions σ}
    {schema : ActiveSchema σ} {c : Change} {f g h : Frame σ δ}
    (hfresh : freshResource r.typeName f = (some (actions, schema), g))
    (hchange : requestedChange schema.plain r g = (some c, h))
    (hgiven : Diagnostics.hasError (PrivateState.decode r.privateBytes).2 = false) :
    let prior := (PrivateState.decode r.privateBytes).1
    let rest : Rpc σ δ PlanResult := do
      let p ← planStages actions schema c prior
      let privateBytes ← Rpc.threadPrivate r.privateBytes prior p.privateState
      return ⟨p.plan.raw, p.requiresReplace, privateBytes, p.deferred⟩
    Diagnostics.hasError (rest h).2.diagnostics = false →
      KeepsPrivate f (.planResource r) r.privateBytes (rest h).1.privateBytes := by
  intro prior rest hok
  have hthread (p : Planned) : Rpc.Adds (fun _ => True)
      (do
        let privateBytes ← Rpc.threadPrivate r.privateBytes prior p.privateState
        return ⟨p.plan.raw, p.requiresReplace, privateBytes, p.deferred⟩ : Rpc σ δ PlanResult) :=
    (Rpc.adds_threadPrivate _ _ _).bind fun _ => Rpc.adds_pure _
  obtain ⟨data, hleaves, hprivate⟩ := planLeaves_of_unfailed ((hthread _ _).not_hasError hok)
  dsimp only [rest]
  rw [rpc_bind, rpc_bind, hprivate]
  exact gives_threadPrivate (.plan hfresh hchange hleaves) hgiven _

theorem planResource_keepsPrivate {r : PlanRequest} {f : Frame σ δ}
    (hok : Diagnostics.hasError (planResource r f).2.diagnostics = false) :
    KeepsPrivate f (.planResource r) r.privateBytes (planResource r f).1.privateBytes := by
  unfold planResource at hok ⊢
  rw [rpc_bind] at hok ⊢
  cases hfresh : freshResource (δ := δ) r.typeName f with
  | mk ready g =>
  rw [hfresh] at hok
  cases ready with
  | none => exact absurd (isSome_of_freshResource hfresh hok) Bool.false_ne_true
  | some ready =>
    obtain ⟨actions, schema⟩ := ready
    dsimp only at hok ⊢
    obtain ⟨-, hunfailed⟩ := Rpc.failed_bind_of_unfailed hok (Rpc.adds_pure _)
    rw [hunfailed, if_neg Bool.false_ne_true] at hok ⊢
    obtain ⟨hgiven, hdecoded⟩ := decodePrivate_bind_of_unfailed hok fun _ => Rpc.adds_pure _
    rw [hdecoded, if_neg Bool.false_ne_true, rpc_bind] at hok ⊢
    have hready := ensures_requestedChange (δ := δ) schema.plain r g
    cases hchange : requestedChange schema.plain r g with
    | mk change h =>
    rw [hchange] at hok hready
    cases change with
    | none => exact absurd (hready hok) Bool.false_ne_true
    | some c => exact planned_keepsPrivate hfresh hchange hgiven hok

/-! ## Changing -/

/-- Where a change gives no error, it had what it needs. -/
theorem keepsPrivate_of_prepared {r : ApplyRequest} {request : Request} {f : Frame σ δ}
    {next : Option (Prepared σ) → Rpc σ δ ApplyResult}
    (hok : Diagnostics.hasError ((prepare r >>= next) f).2.diagnostics = false)
    (hnone : next none = pure .none)
    (hsome : ∀ p g, prepare r f = (some p, g) →
      p.privateState = (PrivateState.decode r.privateBytes).1 →
      KeepsPrivate f request r.privateBytes (next (some p) g).1.privateBytes) :
    KeepsPrivate f request r.privateBytes ((prepare r >>= next) f).1.privateBytes := by
  have hready := ensures_prepare (δ := δ) r f
  have hprepared := @freshResource_of_prepare σ δ r f
  rw [rpc_bind] at hok ⊢
  cases hprepare : prepare (δ := δ) r f with
  | mk prepared g =>
  rw [hprepare] at hok hready hprepared
  cases prepared with
  | none =>
    rw [hnone] at hok
    exact absurd (hready hok) Bool.false_ne_true
  | some p => exact hsome p g hprepare (hprepared rfl).2.2

theorem gives_conclude {r : ApplyRequest} {request : Request} {f : Frame σ δ} {p : Prepared σ}
    {answer : Resource.Changed} (plan : Value) (missing : Diagnostic)
    (hprivate : p.privateState = (PrivateState.decode r.privateBytes).1)
    (hleaves : LeavesData f request answer.privateData)
    (hchanges : request.changesNothing = false) :
    Rpc.Gives (fun result => KeepsPrivate f request r.privateBytes result.privateBytes)
      (conclude p plan missing answer : Rpc σ δ ApplyResult) := by
  unfold conclude storedPrivate
  rw [hprivate]
  refine (gives_encodePrivate hleaves hchanges _).bind fun privateBytes h => ?_
  have hrest : Rpc.Gives (fun result => KeepsPrivate f request r.privateBytes result.privateBytes)
      (do
        if ← Rpc.failed then return ⟨answer.state.raw, privateBytes⟩
        return ⟨← Rpc.reconcile p.schema plan answer.state.raw, privateBytes⟩ :
          Rpc σ δ ApplyResult) := by
    refine Rpc.gives_bind fun failed => ?_
    cases failed with
    | true => exact Rpc.gives_pure h
    | false => exact Rpc.gives_bind fun _ => Rpc.gives_pure h
  refine Rpc.gives_bind fun failed => ?_
  dsimp only
  split
  · exact Rpc.gives_bind fun _ => hrest
  · exact hrest

theorem createResource_keepsPrivate {r : ApplyRequest} {f : Frame σ δ}
    (hok : Diagnostics.hasError (createResource r f).2.diagnostics = false) :
    KeepsPrivate f (.createResource r) r.privateBytes (createResource r f).1.privateBytes :=
  keepsPrivate_of_prepared hok rfl fun _ _ hprepare hprivate =>
    gives_conclude _ _ hprivate (.create hprepare) rfl _

theorem updateResource_keepsPrivate {r : ApplyRequest} {f : Frame σ δ}
    (hok : Diagnostics.hasError (updateResource r f).2.diagnostics = false) :
    KeepsPrivate f (.updateResource r) r.privateBytes (updateResource r f).1.privateBytes :=
  keepsPrivate_of_prepared hok rfl fun _ _ hprepare hprivate =>
    gives_conclude _ _ hprivate (.update hprepare) rfl _

/-- What is deleted keeps its private state all the same. -/
theorem gives_deleted {r : ApplyRequest} {request : Request} {f : Frame σ δ} {p : Prepared σ}
    {answer : Resource.Changed} (hprivate : p.privateState = (PrivateState.decode r.privateBytes).1)
    (hleaves : LeavesData f request answer.privateData)
    (hchanges : request.changesNothing = false) :
    Rpc.Gives (fun result => KeepsPrivate f request r.privateBytes result.privateBytes)
      (do
        let state := if ← Rpc.failed then answer.state.raw else .null
        return ⟨state, ← storedPrivate p answer⟩ : Rpc σ δ ApplyResult) := by
  unfold storedPrivate
  rw [hprivate]
  exact Rpc.gives_bind fun _ =>
    (gives_encodePrivate hleaves hchanges _).bind fun _ h => Rpc.gives_pure h

theorem deleteResource_keepsPrivate {r : ApplyRequest} {f : Frame σ δ}
    (hok : Diagnostics.hasError (deleteResource r f).2.diagnostics = false) :
    KeepsPrivate f (.deleteResource r) r.privateBytes (deleteResource r f).1.privateBytes :=
  keepsPrivate_of_prepared hok rfl fun _ _ hprepare hprivate =>
    gives_deleted hprivate (.delete hprepare) rfl _

/-- Applying a change keeps what the change it comes to keeps. -/
theorem KeepsPrivate.apply {r : ApplyRequest} {change : Request} {f : Frame σ δ}
    {given kept : Bytes} (h : KeepsPrivate f change given kept) (hchange : r.change? = some change) :
    KeepsPrivate f (.applyResource r) given kept := by
  obtain ⟨data, hleaves, hdecode, -⟩ := h
  exact ⟨data, .apply hchange hleaves, hdecode, Bool.noConfusion⟩

theorem applyResource_keepsPrivate {r : ApplyRequest} {f : Frame σ δ}
    (hok : Diagnostics.hasError (applyResource r f).2.diagnostics = false) :
    KeepsPrivate f (.applyResource r) r.privateBytes (applyResource r f).1.privateBytes := by
  unfold applyResource at hok ⊢
  cases hprior : (r.priorState.getD .null).isNull <;>
    cases hplanned : (r.plannedState.getD .null).isNull <;>
    rw [hprior, hplanned] at hok
  · exact (updateResource_keepsPrivate hok).apply (by rw [ApplyRequest.change?, hprior, hplanned])
  · exact (deleteResource_keepsPrivate hok).apply (by rw [ApplyRequest.change?, hprior, hplanned])
  · exact (createResource_keepsPrivate hok).apply (by rw [ApplyRequest.change?, hprior, hplanned])
  · exact Bool.noConfusion (hok.symm.trans (Rpc.hasError_report_bind rfl (Rpc.adds_pure _) f))

/-! ## Renewing -/

/-- What is open is known by the private state it came with. -/
theorem gives_heldEphemeral (r : OpenedRequest) :
    Rpc.Gives (fun held => ∀ h, held = some h → h.2 = (PrivateState.decode r.privateBytes).1)
      (heldEphemeral r : Rpc σ δ (Option (EphemeralResource.Actions σ × PrivateState))) := by
  have hdecode : Rpc.Gives (fun s => s = (PrivateState.decode r.privateBytes).1)
      (Rpc.decodePrivate r.privateBytes : Rpc σ δ PrivateState) := fun _ => rfl
  refine Rpc.gives_bind fun ready => ?_
  cases ready with
  | none =>
    refine Rpc.gives_pure ?_
    intro h hh
    cases hh
  | some ready =>
    refine hdecode.bind fun s hs => Rpc.gives_bind fun failed => ?_
    cases failed with
    | true =>
      refine Rpc.gives_pure ?_
      intro h hh
      cases hh
    | false =>
      refine Rpc.gives_pure ?_
      intro h hh
      cases hh
      exact hs

theorem ensures_heldEphemeral (r : OpenedRequest) :
    Rpc.Ensures (fun held => held.isSome = true)
      (heldEphemeral r : Rpc σ δ (Option (EphemeralResource.Actions σ × PrivateState))) :=
  (Rpc.ensures_fresh ephemeralSlot _ _ r.typeName).bind_some (Rpc.adds_pure _) fun _ =>
    Rpc.ensures_bind fun _ => Rpc.ensures_failed_bind (Rpc.ensures_pure rfl) (Rpc.adds_pure _)

theorem gives_renewed {r : OpenedRequest} {f : Frame σ δ} {answer : EphemeralResource.Renewed}
    (hleaves : LeavesData f (.renewEphemeral r) answer.privateData) :
    let prior := (PrivateState.decode r.privateBytes).1
    Rpc.Gives (fun result => KeepsPrivate f (.renewEphemeral r) r.privateBytes result.privateBytes)
      (do
        let privateBytes ← Rpc.encodePrivate { prior with provider := answer.privateData }
        return ⟨privateBytes, answer.renewAt⟩ : Rpc σ δ RenewResult) :=
  (gives_encodePrivate hleaves rfl _).bind fun _ h => Rpc.gives_pure h

theorem renewEphemeral_keepsPrivate {r : OpenedRequest} {f : Frame σ δ}
    (hok : Diagnostics.hasError (renewEphemeral r f).2.diagnostics = false) :
    KeepsPrivate f (.renewEphemeral r) r.privateBytes (renewEphemeral r f).1.privateBytes := by
  have hready := ensures_heldEphemeral (δ := δ) r f
  have hprivate := gives_heldEphemeral (δ := δ) r f
  unfold renewEphemeral at hok ⊢
  rw [rpc_bind] at hok ⊢
  cases hheld : heldEphemeral (δ := δ) r f with
  | mk held g =>
  rw [hheld] at hok hready hprivate
  cases held with
  | none => exact absurd (hready hok) Bool.false_ne_true
  | some held =>
    obtain ⟨actions, s⟩ := held
    obtain rfl := hprivate _ rfl
    dsimp only at hok ⊢
    cases hrenew : actions.renew with
    | none =>
      rw [hrenew] at hok
      exact Bool.noConfusion (hok.symm.trans (Rpc.hasError_report_bind rfl (Rpc.adds_pure _) g))
    | some renew => exact gives_renewed (.renew hheld hrenew) _

/-! ## Any request -/

theorem serving_keepsPrivate {request : Request} {given : Bytes}
    (hgiven : request.privateBytes? = some given) {f : Frame σ δ}
    (hok : Diagnostics.hasError (serving request f).2.diagnostics = false) :
    ∃ kept, (serving request f).1.privateBytes? = some kept ∧ KeepsPrivate f request given kept := by
  cases request <;> cases hgiven
  case readResource r => exact ⟨_, rfl, readResource_keepsPrivate hok⟩
  case planResource r => exact ⟨_, rfl, planResource_keepsPrivate hok⟩
  case applyResource r => exact ⟨_, rfl, applyResource_keepsPrivate hok⟩
  case createResource r => exact ⟨_, rfl, createResource_keepsPrivate hok⟩
  case updateResource r => exact ⟨_, rfl, updateResource_keepsPrivate hok⟩
  case deleteResource r => exact ⟨_, rfl, deleteResource_keepsPrivate hok⟩
  case renewEphemeral r => exact ⟨_, rfl, renewEphemeral_keepsPrivate hok⟩

/-- Whatever the provider does, private state comes out of an operation without an error with the
entries of the framework it went in with, and with the data that the provider has in the end. If
that is the data it had, a plan and a refresh give back the bytes they were given. -/
theorem framework_entries_survive (server : Server σ δ) (world : σ) (request : Request)
    (given : Bytes) (hgiven : request.privateBytes? = some given) :
    let f : Frame σ δ := ⟨world, server, [], []⟩
    let answer := (serve server request world).1.1
    Diagnostics.hasError answer.diagnostics = false →
    ∃ kept, answer.result.privateBytes? = some kept ∧
      (PrivateState.decode kept).1.framework = (PrivateState.decode given).1.framework ∧
      (∃ data, LeavesData f request data) ∧
      ∀ data, LeavesData f request data →
        (PrivateState.decode kept).1.provider = data ∧
          (request.changesNothing = true →
            data = (PrivateState.decode given).1.provider → kept = given) := by
  intro f answer hok
  obtain ⟨kept, hkept, data, hleaves, hdecode, hsame⟩ := serving_keepsPrivate hgiven (f := f) hok
  refine ⟨kept, hkept, ?_, ⟨data, hleaves⟩, fun other hother => ?_⟩
  · rw [hdecode]
  · obtain rfl := hleaves.unique hother
    refine ⟨?_, hsame⟩
    rw [hdecode]

/-- The actions of a resource that stores a mark of its own when it is created. -/
def markingActions (σ : Type) : Resource.Actions σ :=
  { idleActions σ with
    create := fun r => pure ⟨r.plan, (r.privateData.set "seen" [50]).1, []⟩ }

/-- The entry of the framework survives a create that stores a mark, and a refresh that finds
nothing new gives its bytes back. -/
theorem tagged_entry_survives :
    let change := { namedChange none (some namedState) with
      privateBytes := PrivateState.taggedBytes }
    let created :=
      (serve (actingServer namedSchema (markingActions Nat)) (.applyResource change) 0).1.1
    let refreshed := (serve (loneServer namedSchema)
      (.readResource (namedRefresh PrivateState.taggedBytes)) 0).1.1
    (Diagnostics.hasError created.diagnostics = false ∧
      ∃ kept, created.result.privateBytes? = some kept ∧
        (PrivateState.decode kept).1.framework = [(".own", [123, 125])]) ∧
    Diagnostics.hasError refreshed.diagnostics = false ∧
      refreshed.result.privateBytes? = some PrivateState.taggedBytes := by
  intro change created refreshed
  have hown : (PrivateState.decode PrivateState.taggedBytes).1.framework = [(".own", [123, 125])] := by
    decide +kernel
  have hcreated : Diagnostics.hasError created.diagnostics = false := by decide +kernel
  have hrefreshed : Diagnostics.hasError refreshed.diagnostics = false := by decide +kernel
  refine ⟨⟨hcreated, ?_⟩, hrefreshed, ?_⟩
  · obtain ⟨kept, hkept, hframework, -⟩ := framework_entries_survive _ _ (.applyResource change)
      PrivateState.taggedBytes rfl hcreated
    exact ⟨kept, hkept, hframework.trans hown⟩
  · obtain ⟨kept, hkept, -, -, hall⟩ := framework_entries_survive _ _
      (.readResource (namedRefresh PrivateState.taggedBytes)) PrivateState.taggedBytes rfl hrefreshed
    have hleaves := LeavesData.read (f := (⟨0, loneServer namedSchema, [], []⟩ : Frame Nat Unit))
      (r := namedRefresh PrivateState.taggedBytes) rfl rfl rfl
    rw [hkept, (hall _ hleaves).2 rfl rfl]

end Server

end ProviderKit
