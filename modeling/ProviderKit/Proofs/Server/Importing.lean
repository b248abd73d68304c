import ProviderKit.Proofs.PrivateState.RoundTrip
import ProviderKit.Proofs.Server.Readiness
import ProviderKit.Proofs.Server.Runs

-- How imports end. Whatever the resource leaves, an import fails, is put off or takes one object
-- over, and never two of these: an answer with an error has nothing else, and one that is put off
-- has no object.

namespace ProviderKit.Server

variable {σ δ : Type}

/-! ## Ends of an import -/

def IsImport (callback : Callback δ) : Prop := ∃ request, callback = .importState request

/-- What a resource leaves when it is asked for an object, which it is not if its type cannot be
had or cannot import. -/
def imported? (f : Frame σ δ) (r : ImportRequest) : Option Resource.Imported :=
  let (ready, g) := freshResource r.typeName f
  ready.bind fun ready =>
    ready.1.importState.map fun importState =>
      (importState ⟨r.id, r.client, ready.2.plain⟩ g.world).1

/-- An object as the resource left it: it has the type that was asked for and a state, and its
private bytes hold the provider's data and nothing else. -/
structure TakesOver (r : ImportRequest) (left : Resource.Imported) (object : ImportedResource) :
    Prop where
  typeName : object.typeName = r.typeName
  state : object.state = left.state.raw
  present : object.state.isNull = false
  privateState : PrivateState.decode object.privateBytes = (.ofProvider left.privateData, [])

/-- How an import ends. -/
inductive ImportOutcome where
  | failed
  | putOff
  | takenOver

/-- What an answer is like when an import that started in a frame ends so. -/
def ImportOutcome.Shows (f : Frame σ δ) (r : ImportRequest) (answer : Answer δ ImportResult) :
    ImportOutcome → Prop
  | .failed =>
    Diagnostics.hasError answer.diagnostics = true ∧ answer.result.resources = [] ∧
      answer.result.deferred = none
  | .putOff =>
    Diagnostics.hasError answer.diagnostics = false ∧ answer.result.resources = [] ∧
      answer.result.deferred.isSome = true
  | .takenOver =>
    Diagnostics.hasError answer.diagnostics = false ∧ answer.result.deferred = none ∧
      (∃ c ∈ answer.calls, IsImport c.callback) ∧
      ∃ left object, imported? f r = some left ∧ answer.result.resources = [object] ∧
        TakesOver r left object

/-- Errors, objects and deferrals tell the ends apart. -/
theorem ImportOutcome.Shows.unique {f : Frame σ δ} {r : ImportRequest}
    {answer : Answer δ ImportResult} {a b : ImportOutcome} (ha : a.Shows f r answer)
    (hb : b.Shows f r answer) : a = b := by
  cases a with
  | failed =>
    obtain ⟨herror, -⟩ := ha
    cases b with
    | failed => rfl
    | putOff => exact absurd (herror.symm.trans hb.1) Bool.noConfusion
    | takenOver => exact absurd (herror.symm.trans hb.1) Bool.noConfusion
  | putOff =>
    obtain ⟨hok, -, hdeferred⟩ := ha
    cases b with
    | failed => exact absurd (hok.symm.trans hb.1) Bool.noConfusion
    | putOff => rfl
    | takenOver =>
      rw [hb.2.1] at hdeferred
      cases hdeferred
  | takenOver =>
    obtain ⟨hok, hnone, -⟩ := ha
    cases b with
    | failed => exact absurd (hok.symm.trans hb.1) Bool.noConfusion
    | putOff =>
      have hdeferred := hb.2.2
      rw [hnone] at hdeferred
      cases hdeferred
    | takenOver => rfl

/-! ## After the resource was asked -/

/-- What is answered once the resource has left something, and whether there is an error. -/
inductive Concludes (r : ImportRequest) (left : Resource.Imported) : ImportResult → Bool → Prop
  | failed : Concludes r left .none true
  | putOff (deferral : Deferral) : Concludes r left ⟨[], some deferral⟩ false
  | takenOver (hpresent : left.state.isNull = false) :
      Concludes r left
        ⟨[⟨r.typeName, left.state.raw, (PrivateState.ofProvider left.privateData).encode.1⟩], none⟩
        false

theorem isWellFormed_ofProvider (d : ProviderData) : (PrivateState.ofProvider d).IsWellFormed :=
  PrivateState.isWellFormed_empty.withProvider d

/-- How an import goes on with what the resource left. -/
def concludeImport (r : ImportRequest) (left : Resource.Imported) : Rpc σ δ ImportResult := do
  checkDeferral "Resource" r.client left.deferred
  if ← Rpc.failed then return .none
  if let some deferred := left.deferred then return ⟨[], some deferred⟩
  if left.state.isNull then
    Rpc.report [missingImportState]
    return .none
  let privateBytes ← Rpc.encodePrivate (.ofProvider left.privateData)
  return ⟨[⟨r.typeName, left.state.raw, privateBytes⟩], none⟩

theorem onlyReports_concludeImport (r : ImportRequest) (left : Resource.Imported) :
    Rpc.OnlyReports (concludeImport r left : Rpc σ δ ImportResult) := by
  refine ((Rpc.onlyReports_report _).ite (Rpc.onlyReports_pure _)).bind fun _ => ?_
  refine Rpc.OnlyReports.bind (fun f => .refl f) fun _ => (Rpc.onlyReports_pure _).ite ?_
  split
  · exact Rpc.onlyReports_pure _
  · exact (Rpc.onlyReports_report_pure _ _).ite
      ((Rpc.onlyReports_encodePrivate _).bind fun _ => Rpc.onlyReports_pure _)

/-- The private bytes are made last, and making them cannot fail. -/
theorem concludes_concludeImport (r : ImportRequest) (left : Resource.Imported) (f : Frame σ δ) :
    Concludes r left (concludeImport r left f).1
      (Diagnostics.hasError (concludeImport r left f).2.diagnostics) := by
  unfold concludeImport
  rw [rpc_bind]
  generalize (checkDeferral "Resource" r.client left.deferred f).2 = g
  rw [rpc_bind, Rpc.failed_eq]
  cases hg : Diagnostics.hasError g.diagnostics with
  | true =>
    rw [if_pos rfl, rpc_pure, hg]
    exact .failed
  | false =>
    rw [if_neg Bool.false_ne_true]
    cases left.deferred with
    | some deferral =>
      dsimp only
      rw [rpc_pure, hg]
      exact .putOff deferral
    | none =>
      cases hstate : left.state.isNull with
      | true =>
        have herror : Diagnostics.hasError (g.diagnostics ++ [missingImportState]) = true := by
          rw [Diagnostics.hasError_append]
          exact Bool.or_true _
        dsimp only
        rw [if_pos rfl, rpc_bind, Rpc.report_eq, rpc_pure, herror]
        exact .failed
      | false =>
        have hstorable := (isWellFormed_ofProvider left.privateData).storable
        dsimp only
        rw [if_neg Bool.false_ne_true, rpc_bind, encodePrivate_of_isStorable hstorable, rpc_pure,
          hg]
        exact .takenOver hstate

theorem concludeImport_shows {r : ImportRequest} {left : Resource.Imported} {f g : Frame σ δ}
    (hleft : imported? f r = some left) (hcalled : ∃ c ∈ g.calls, IsImport c.callback) :
    ∃ outcome : ImportOutcome, outcome.Shows f r
      ⟨(concludeImport r left g).1, (concludeImport r left g).2.diagnostics,
        (concludeImport r left g).2.calls⟩ := by
  rw [← (onlyReports_concludeImport r left g).calls] at hcalled
  have hends := concludes_concludeImport r left g
  generalize concludeImport r left g = ended at hcalled hends ⊢
  obtain ⟨result, h⟩ := ended
  dsimp only at hcalled hends ⊢
  generalize herror : Diagnostics.hasError h.diagnostics = error at hends
  cases hends with
  | failed => exact ⟨.failed, herror, rfl, rfl⟩
  | putOff deferral => exact ⟨.putOff, herror, rfl, rfl⟩
  | takenOver hpresent =>
    have hdecode := PrivateState.decode_encode (isWellFormed_ofProvider left.privateData)
    exact ⟨.takenOver, herror, rfl, hcalled, _, _, hleft, rfl, rfl, rfl, hpresent, hdecode⟩

/-! ## Any import -/

theorem importResource_of_hasError (r : ImportRequest) {f g : Frame σ δ}
    {ready : Option (Resource.Actions σ × ActiveSchema σ)}
    (hfresh : freshResource r.typeName f = (ready, g))
    (herror : Diagnostics.hasError g.diagnostics = true) :
    importResource r f = (.none, g) := by
  rw [importResource, rpc_bind, hfresh]
  cases ready with
  | none => rfl
  | some ready =>
    dsimp only
    rw [rpc_bind, Rpc.failed_eq, herror]
    rfl

theorem importResource_of_deferral (r : ImportRequest) {f g : Frame σ δ}
    {ready : Resource.Actions σ × ActiveSchema σ} {deferral : Deferral}
    (hfresh : freshResource r.typeName f = (some ready, g))
    (hok : Diagnostics.hasError g.diagnostics = false)
    (hdeferral : (providerDeferral r.client g).1 = some deferral) :
    importResource r f = (⟨[], some deferral⟩, g) := by
  rw [importResource, rpc_bind, hfresh]
  dsimp only
  rw [rpc_bind, Rpc.failed_eq, hok, if_neg Bool.false_ne_true, rpc_bind, hdeferral]
  rfl

/-- A resource that is neither put off nor broken is asked if it can import, and refused if not. -/
theorem importResource_of_ready (r : ImportRequest) {f g : Frame σ δ}
    {actions : Resource.Actions σ} {schema : ActiveSchema σ}
    (hfresh : freshResource r.typeName f = (some (actions, schema), g))
    (hok : Diagnostics.hasError g.diagnostics = false)
    (hdeferral : (providerDeferral r.client g).1 = none) :
    importResource r f =
      match actions.importState with
      | none => (.none, { g with diagnostics := g.diagnostics ++ [importNotImplemented] })
      | some importState =>
        let request : Resource.ImportRequest := ⟨r.id, r.client, schema.plain⟩
        let called := Rpc.call (.importState request) (importState request) (·.diagnostics) g
        concludeImport r called.1 called.2 := by
  have hframe : (providerDeferral r.client g).2 = g := rfl
  rw [importResource, rpc_bind, hfresh]
  dsimp only
  rw [rpc_bind, Rpc.failed_eq, hok, if_neg Bool.false_ne_true, rpc_bind, hframe, hdeferral]
  dsimp only
  cases actions.importState with
  | none => rfl
  | some importState => rfl

theorem importResource_shows (r : ImportRequest) (f : Frame σ δ) :
    ∃ outcome : ImportOutcome, outcome.Shows f r
      ⟨(importResource r f).1, (importResource r f).2.diagnostics,
        (importResource r f).2.calls⟩ := by
  cases hfresh : freshResource (δ := δ) r.typeName f with
  | mk ready g =>
  cases hok : Diagnostics.hasError g.diagnostics with
  | true =>
    rw [importResource_of_hasError r hfresh hok]
    exact ⟨.failed, hok, rfl, rfl⟩
  | false =>
    obtain ⟨⟨actions, schema⟩, rfl⟩ :=
      Option.isSome_iff_exists.mp (isSome_of_freshResource hfresh hok)
    cases hdeferral : (providerDeferral r.client g).1 with
    | some deferral =>
      rw [importResource_of_deferral r hfresh hok hdeferral]
      exact ⟨.putOff, hok, rfl, rfl⟩
    | none =>
      rw [importResource_of_ready r hfresh hok hdeferral]
      cases himport : actions.importState with
      | none =>
        refine ⟨.failed, ?_, rfl, rfl⟩
        rw [Diagnostics.hasError_append]
        exact Bool.or_true _
      | some importState =>
        refine concludeImport_shows ?_ ⟨_, Rpc.mem_calls_call _ _ _ g, _, rfl⟩
        rw [imported?, hfresh]
        dsimp only [Option.bind_some]
        rw [himport]
        rfl

/-- Every import ends in exactly one of three ways: with an error and nothing else, put off and
without an object, or with one object that is as the resource left it. -/
theorem import_ends_one_way (server : Server σ δ) (world : σ) (r : ImportRequest) :
    let answer := ((importResource r).run server world).1.1
    ∃! outcome : ImportOutcome, outcome.Shows (.opening server world) r answer := by
  intro answer
  obtain ⟨outcome, hshows⟩ := importResource_shows r (.opening server world)
  exact ⟨outcome, hshows, fun _ hother => hother.unique hshows⟩

end ProviderKit.Server
