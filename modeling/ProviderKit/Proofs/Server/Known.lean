import ProviderKit.Proofs.Reconcile.Known
import ProviderKit.Proofs.Server.Asides
import ProviderKit.Proofs.Server.Retention

-- Whether the state of an answer is known. Where the provider returned one without unknown values,
-- what is unknown in the answer was kept for being found equal.

namespace ProviderKit.Server

variable {σ δ α γ : Type}

/-! ## Comparisons -/

/-- The comparison that was made, if it was one. -/
def Callback.compared? : Callback δ → Option EqualityCall
  | .compareValues compared => some compared
  | _ => none

/-- The comparisons among the calls, oldest first. -/
def comparisons (calls : List (Call δ)) : List EqualityCall :=
  calls.filterMap (·.callback.compared?)

theorem Callback.compared?_of_isOperation {callback : Callback δ}
    (h : callback.isOperation = true) : callback.compared? = none := by
  unfold compared?
  split
  · cases h
  · rfl

theorem comparisons_of_configures {f g : Frame σ δ} (h : f.Adds Callback.Configures g) :
    comparisons g.calls = comparisons f.calls := by
  obtain ⟨cs, hg, hcs⟩ := h.calls
  have hnone : comparisons cs = [] := by
    refine List.filterMap_eq_nil_iff.mpr fun c hc => ?_
    obtain ⟨noun, typeName, data, hc⟩ := hcs c hc
    rw [hc]
    rfl
  rw [hg, comparisons, List.filterMap_append]
  exact (congrArg _ hnone).trans (List.append_nil _)

namespace Rpc

theorem comparisons_noteAll (reported : EqualityCall → Diagnostics) (es : List EqualityCall)
    (f : Frame σ δ) :
    comparisons (noteAll Callback.compareValues reported es f).2.calls =
      comparisons f.calls ++ es := by
  induction es generalizing f with
  | nil => exact (List.append_nil _).symm
  | cons e es ih =>
    rw [noteAll_cons, ih, note_eq, comparisons, List.filterMap_append, List.append_assoc]
    rfl

/-- Carrying an operation out compares nothing. -/
theorem comparisons_call {callback : Callback δ} (h : callback.isOperation = true)
    (action : StateM σ α) (reported : α → Diagnostics) (f : Frame σ δ) :
    comparisons (call callback action reported f).2.calls = comparisons f.calls := by
  have hcalls : (call callback action reported f).2.calls =
      f.calls ++ [⟨callback, f.diagnostics, reported (action f.world).1⟩] := rfl
  have hnone : comparisons [⟨callback, f.diagnostics, reported (action f.world).1⟩] = [] :=
    List.filterMap_cons_none (Callback.compared?_of_isOperation h)
  rw [hcalls, comparisons, List.filterMap_append]
  exact (congrArg _ hnone).trans (List.append_nil _)

/-- Unless the step fails, the state it gives is fully known exactly if each prior value is that
it found equal, so in particular if the prior value is as a whole. -/
def KnownIff (prior : Value) (state : α → Value) (rpc : Rpc σ δ α) : Prop :=
  ∀ f, Diagnostics.hasError (rpc f).2.diagnostics = false →
    ∃ more, comparisons (rpc f).2.calls = comparisons f.calls ++ more ∧
      ((state (rpc f).1).isFullyKnown = true ↔ ∀ compared ∈ more, compared.KeepsKnown) ∧
      (prior.isFullyKnown = true → (state (rpc f).1).isFullyKnown = true)

variable {prior : Value} {state : α → Value}

theorem OnlyReports.bind_knownIff {rpc : Rpc σ δ γ} {next : γ → Rpc σ δ α} (h : OnlyReports rpc)
    (hnext : ∀ c, KnownIff prior state (next c)) : KnownIff prior state (rpc >>= next) := by
  intro f hok
  obtain ⟨more, hmore, hknown⟩ := hnext (rpc f).1 (rpc f).2 hok
  rw [(h f).calls] at hmore
  exact ⟨more, hmore, hknown⟩

/-- A comparison that fails is reported, so without an error the reconciled value is given. -/
theorem knownIff_reconcile (schema : ActiveSchema σ) (prior : Value) {proposed : Value}
    (hproposed : proposed.isFullyKnown = true) :
    KnownIff prior id (reconcile schema prior proposed : Rpc σ δ Value) := by
  intro f hok
  have hcalls : comparisons (reconcile schema prior proposed f).2.calls =
      comparisons f.calls ++ (schema.reconcile prior proposed f.world).1.calls :=
    comparisons_noteAll _ _ _
  obtain ⟨hgives, hreported⟩ := reconcile_eq schema prior proposed f
  rw [hreported, Diagnostics.hasError_append, Bool.or_eq_false_iff,
    EqualityCall.hasError_flatMap] at hok
  rw [if_neg (Bool.eq_false_iff.mp hok.2)] at hgives
  refine ⟨_, hcalls, ?_⟩
  rw [hgives]
  exact schema.reconcile_isFullyKnown_iff prior hproposed f.world

theorem knownIff_reconcile_unless_failed (schema : ActiveSchema σ) (prior : Value)
    {proposed : Value} (hproposed : proposed.isFullyKnown = true) (give : Value → α)
    (state : α → Value) (hgive : ∀ v, state (give v) = v) :
    KnownIff prior state
      (do
        if ← failed then return give proposed
        return give (← reconcile schema prior proposed) : Rpc σ δ α) := by
  intro f hok
  obtain ⟨-, heq⟩ := failed_bind_of_unfailed hok (adds_pure _)
  rw [heq] at hok ⊢
  obtain ⟨more, hmore, hknown⟩ := knownIff_reconcile schema prior hproposed f hok
  have hstate := hgive (reconcile schema prior proposed f).1
  refine ⟨more, hmore, ?_⟩
  rw [if_neg Bool.false_ne_true, rpc_bind, rpc_pure, hstate]
  exact hknown

end Rpc

/-! ## Answers -/

/-- The callback, on the instance that a request gets, returns this state. -/
inductive Returns (f : Frame σ δ) (typeName : String) : Callback δ → Value → Prop
  | create {actions : Resource.Actions σ} {schema : ActiveSchema σ} {g : Frame σ δ}
      (hfresh : freshResource typeName f = (some (actions, schema), g))
      (request : Resource.CreateRequest) :
      Returns f typeName (.create request) (actions.create request g.world).1.state.raw
  | update {actions : Resource.Actions σ} {schema : ActiveSchema σ} {g : Frame σ δ}
      (hfresh : freshResource typeName f = (some (actions, schema), g))
      (request : Resource.UpdateRequest) :
      Returns f typeName (.update request) (actions.update request g.world).1.state.raw
  | read {actions : Resource.Actions σ} {schema : ActiveSchema σ} {g : Frame σ δ}
      (hfresh : freshResource typeName f = (some (actions, schema), g))
      (request : Resource.ReadRequest) :
      Returns f typeName (.read request) (actions.read request g.world).1.state.raw
  | readData {actions : DataSource.Actions σ} {schema : ActiveSchema σ} {g : Frame σ δ}
      (hfresh : freshDataSource typeName f = (some (actions, schema), g))
      (request : DataSource.ReadRequest) :
      Returns f typeName (.readData request) (actions.read request g.world).1.state.raw

theorem Returns.isOperation {f : Frame σ δ} {typeName : String} {callback : Callback δ} {v : Value}
    (h : Returns f typeName callback v) : callback.isOperation = true := by
  cases h <;> rfl

theorem Returns.not_isAside {f : Frame σ δ} {typeName : String} {callback : Callback δ} {v : Value}
    (h : Returns f typeName callback v) : ¬ callback.IsAside :=
  fun haside => Bool.noConfusion (h.isOperation.symm.trans haside)

/-- Unless the request failed, where the provider returned a fully known state, the state of the
answer is fully known exactly if each prior value is that was found equal, so in particular if the
prior value is as a whole. -/
def Answer.KnownAsReturned (f : Frame σ δ) (typeName : String) (prior : Value)
    (state : α → Value) (answer : Answer δ α) : Prop :=
  Diagnostics.hasError answer.diagnostics = false →
    ∀ c ∈ answer.calls, ∀ returned, Returns f typeName c.callback returned →
      returned.isFullyKnown = true →
      ((state answer.result).isFullyKnown = true ↔
        ∀ compared ∈ comparisons answer.calls, compared.KeepsKnown) ∧
      (prior.isFullyKnown = true → (state answer.result).isFullyKnown = true)

/-- The answer that serving a request ends with. -/
def Answer.of (out : α × Frame σ δ) : Answer δ α := ⟨out.1, out.2.diagnostics, out.2.calls⟩

variable {f g : Frame σ δ} {typeName : String} {prior : Value} {state : α → Value}

theorem not_returns_of_adds (hstart : f.calls = []) (hadds : f.Adds Callback.IsAside g) {c : Call δ}
    (hc : c ∈ g.calls) {v : Value} : ¬ Returns f typeName c.callback v := by
  intro h
  rcases hadds.mem_calls hc with hmem | haside
  · rw [hstart] at hmem
    cases hmem
  · exact h.not_isAside haside

/-- Where the provider was not asked, it returned nothing. -/
theorem knownAsReturned_of_adds (hstart : f.calls = []) (hadds : f.Adds Callback.IsAside g)
    (result : α) : (Answer.of (result, g)).KnownAsReturned f typeName prior state :=
  fun _ _ hc _ hreturned => absurd hreturned (not_returns_of_adds hstart hadds hc)

/-- The provider is asked once, and what it returned is compared afterwards. -/
theorem knownAsReturned_call (hstart : f.calls = []) (hready : f.Adds Callback.Configures g)
    {callback : Callback δ} (hoperation : callback.isOperation = true) {action : StateM σ γ}
    {reported : γ → Diagnostics} {next : γ → Rpc σ δ α} (left : Value)
    (hleft : ∀ v, Returns f typeName callback v → v = left)
    (hadds : ∀ c, Rpc.Adds Callback.IsAside (next c))
    (hnext : left.isFullyKnown = true → Rpc.KnownIff prior state (next (action g.world).1)) :
    (Answer.of ((Rpc.call callback action reported >>= next) g)).KnownAsReturned f typeName prior
      state := by
  intro hok c hc returned hreturned hknown
  let called : Frame σ δ := (Rpc.call callback action reported g).2
  have hreturned : returned = left := by
    rcases (hadds (action g.world).1 called).mem_calls hc with hc | haside
    · rcases List.mem_append.mp hc with hc | hc
      · have hready : f.Adds Callback.IsAside g := hready.mono fun _ => Callback.Configures.isAside
        exact absurd hreturned (not_returns_of_adds hstart hready hc)
      · rw [List.mem_singleton.mp hc] at hreturned
        exact hleft returned hreturned
    · exact absurd haside hreturned.not_isAside
  subst hreturned
  obtain ⟨more, hmore, hstate⟩ := hnext hknown called hok
  have hmade : comparisons called.calls = [] := by
    rw [Rpc.comparisons_call hoperation, comparisons_of_configures hready, hstart]
    rfl
  rw [hmade, List.nil_append] at hmore
  rw [← hmore] at hstate
  exact hstate

/-! ## Changing -/

theorem knownIff_conclude (p : Prepared σ) (plan : Value) (missing : Diagnostic)
    {answer : Resource.Changed} (hknown : answer.state.raw.isFullyKnown = true) :
    Rpc.KnownIff plan ApplyResult.state (conclude p plan missing answer : Rpc σ δ ApplyResult) := by
  refine (Rpc.onlyReports_encodePrivate _).bind_knownIff fun privateBytes => ?_
  have hrest := Rpc.knownIff_reconcile_unless_failed (δ := δ) p.schema plan hknown
    (fun state => ApplyResult.mk state privateBytes) ApplyResult.state fun _ => rfl
  refine Rpc.onlyReports_failed.bind_knownIff fun failed => ?_
  split
  · exact (Rpc.onlyReports_report _).bind_knownIff fun _ => hrest
  · exact hrest

/-- A change is left to the provider only with an instance of the type that it names. -/
theorem knownAsReturned_prepare_bind (r : ApplyRequest) (hstart : f.calls = [])
    {next : Option (Prepared σ) → Rpc σ δ ApplyResult} (hnone : next none = pure .none)
    (hnext : ∀ p, freshResource r.typeName f = (some (p.actions, p.schema), (prepare r f).2) →
      (Answer.of (next (some p) (prepare r f).2)).KnownAsReturned f r.typeName prior
        ApplyResult.state) :
    (Answer.of ((prepare r >>= next) f)).KnownAsReturned f r.typeName prior
      ApplyResult.state := by
  rw [rpc_bind]
  cases hprepare : (prepare r f).1 with
  | none =>
    rw [hnone]
    exact knownAsReturned_of_adds hstart (adds_prepare r f) _
  | some p => exact hnext p (freshResource_of_prepare hprepare).1

theorem knownAsReturned_createResource (r : ApplyRequest) (hstart : f.calls = []) :
    (Answer.of (createResource r f)).KnownAsReturned f r.typeName
      (r.plannedState.getD .null) ApplyResult.state := by
  refine knownAsReturned_prepare_bind r hstart rfl fun p hfresh => ?_
  dsimp only
  rw [rpc_bind, Rpc.providerMeta_snd]
  refine knownAsReturned_call hstart (configures_of_freshResource hfresh) rfl _ ?_
    (adds_conclude p _ _) (knownIff_conclude p _ _)
  intro v hv
  cases hv with
  | create hfresh' =>
    cases hfresh.symm.trans hfresh'
    rfl

theorem knownAsReturned_updateResource (r : ApplyRequest) (hstart : f.calls = []) :
    (Answer.of (updateResource r f)).KnownAsReturned f r.typeName
      (r.plannedState.getD .null) ApplyResult.state := by
  refine knownAsReturned_prepare_bind r hstart rfl fun p hfresh => ?_
  dsimp only
  rw [rpc_bind, Rpc.providerMeta_snd]
  refine knownAsReturned_call hstart (configures_of_freshResource hfresh) rfl _ ?_
    (adds_conclude p _ _) (knownIff_conclude p _ _)
  intro v hv
  cases hv with
  | update hfresh' =>
    cases hfresh.symm.trans hfresh'
    rfl

/-- A delete asks the provider for no state, so there is nothing to keep known. -/
theorem knownAsReturned_deleteResource (r : ApplyRequest) (hstart : f.calls = []) :
    (Answer.of (deleteResource r f)).KnownAsReturned f r.typeName
      (r.plannedState.getD .null) ApplyResult.state := by
  refine knownAsReturned_prepare_bind r hstart rfl fun p hfresh => ?_
  dsimp only
  rw [rpc_bind, Rpc.providerMeta_snd]
  refine knownAsReturned_call hstart (configures_of_freshResource hfresh) rfl .unknown ?_
    (fun answer => ?_) ?_
  · intro v hv
    cases hv
  · exact Rpc.adds_failed.bind fun _ => (Rpc.adds_encodePrivate _).bind fun _ => Rpc.adds_pure _
  · intro h
    cases h

theorem knownAsReturned_applyResource (r : ApplyRequest) (hstart : f.calls = []) :
    (Answer.of (applyResource r f)).KnownAsReturned f r.typeName
      (r.plannedState.getD .null) ApplyResult.state := by
  unfold applyResource
  cases (r.priorState.getD .null).isNull <;> cases (r.plannedState.getD .null).isNull
  · exact knownAsReturned_updateResource r hstart
  · exact knownAsReturned_deleteResource r hstart
  · exact knownAsReturned_createResource r hstart
  · exact knownAsReturned_of_adds hstart (Rpc.adds_report _ f) _

/-! ## Reading -/

theorem knownIff_refreshed (r : ReadRequest) (schema : ActiveSchema σ) (current : Value)
    (prior : PrivateState) {answer : Resource.Refreshed}
    (hknown : answer.state.raw.isFullyKnown = true) :
    Rpc.KnownIff current ReadResult.state
      (do
        checkDeferral "Resource" r.client answer.deferred
        let privateBytes ←
          Rpc.threadPrivate r.privateBytes prior { prior with provider := answer.privateData }
        let found : ReadResult := ⟨answer.state.raw, privateBytes, answer.deferred⟩
        if ← Rpc.failed then return found
        let state ← Rpc.reconcile schema current found.state
        return { found with state := state } : Rpc σ δ ReadResult) := by
  refine (onlyReports_checkDeferral _ _ _).bind_knownIff fun _ => ?_
  refine (Rpc.onlyReports_threadPrivate _ _ _).bind_knownIff fun privateBytes => ?_
  exact Rpc.knownIff_reconcile_unless_failed schema current hknown
    (fun state => ReadResult.mk state privateBytes answer.deferred) ReadResult.state fun _ => rfl

theorem knownAsReturned_readResource (r : ReadRequest) (hstart : f.calls = []) :
    (Answer.of (readResource r f)).KnownAsReturned f r.typeName
      (r.currentState.getD .null) ReadResult.state := by
  unfold readResource
  cases r.currentState with
  | none => exact knownAsReturned_of_adds hstart (Rpc.adds_report _ f) _
  | some current =>
    dsimp only
    rw [rpc_bind]
    cases hfresh : freshResource r.typeName f with
    | mk ready g =>
    have hadds := adds_of_freshResource hfresh
    cases ready with
    | none => exact knownAsReturned_of_adds hstart hadds _
    | some ready =>
      obtain ⟨actions, schema⟩ := ready
      dsimp only
      rw [decodePrivate_bind_failed]
      split
      · rw [if_neg Bool.false_ne_true, rpc_bind]
        cases hdeferral : (providerDeferral r.client g).1 with
        | some deferred => exact knownAsReturned_of_adds hstart hadds _
        | none =>
          dsimp only
          rw [rpc_bind, Rpc.providerMeta_snd]
          refine knownAsReturned_call hstart (configures_of_freshResource hfresh) rfl _ ?_
            (fun answer => (refreshed_rest r schema current _ answer).2)
            (knownIff_refreshed r schema current _)
          intro v hv
          cases hv with
          | read hfresh' =>
            cases hfresh.symm.trans hfresh'
            rfl
      · exact knownAsReturned_of_adds hstart (hadds.trans (Rpc.adds_report _ g)) _

/-- After the provider has looked a data source up, what it found is compared with the
configuration. -/
theorem lookedUp_rest (client : ClientCapabilities) (schema : ActiveSchema σ) (config : Value)
    (answer : DataSource.Found) :
    let rest : Rpc σ δ DataResult := do
      checkDeferral "Data Source" client answer.deferred
      let found : DataResult := ⟨answer.state.raw, answer.deferred⟩
      if ← Rpc.failed then return found
      let state ← Rpc.reconcile schema config found.state
      return { found with state := state }
    Rpc.Adds Callback.IsAside rest ∧
      (answer.state.raw.isFullyKnown = true → Rpc.KnownIff config DataResult.state rest) := by
  refine ⟨?_, fun hknown => ?_⟩
  · refine (adds_checkDeferral _ _ _).bind fun _ => ?_
    exact Rpc.adds_reconcile_unless_failed schema config answer.state.raw
      fun state => DataResult.mk state answer.deferred
  · refine (onlyReports_checkDeferral _ _ _).bind_knownIff fun _ => ?_
    exact Rpc.knownIff_reconcile_unless_failed schema config hknown
      (fun state => DataResult.mk state answer.deferred) DataResult.state fun _ => rfl

theorem knownAsReturned_readDataSource (r : ReadDataRequest) (hstart : f.calls = []) :
    (Answer.of (readDataSource r f)).KnownAsReturned f r.typeName
      (r.config.getD .null) DataResult.state := by
  unfold readDataSource
  rw [rpc_bind]
  cases hfresh : freshDataSource r.typeName f with
  | mk ready g =>
  have hconfigures := configures_of_freshDataSource hfresh
  have hadds : f.Adds Callback.IsAside g := hconfigures.mono fun _ => Callback.Configures.isAside
  cases ready with
  | none => exact knownAsReturned_of_adds hstart hadds _
  | some ready =>
    obtain ⟨actions, schema⟩ := ready
    dsimp only
    rw [rpc_bind, Rpc.failed_eq]
    split
    · exact knownAsReturned_of_adds hstart hadds _
    · rw [rpc_bind]
      cases hdeferral : (providerDeferral r.client g).1 with
      | some deferred =>
        have hput := adds_putOff_bind (σ := σ) (δ := δ) (P := Callback.IsAside)
          ⟨r.config.getD .null, schema.plain⟩ .none fun v => DataResult.mk v (some deferred)
        exact knownAsReturned_of_adds hstart (hadds.trans (hput g)) _
      | none =>
        dsimp only
        rw [rpc_bind, Rpc.providerMeta_snd]
        refine knownAsReturned_call hstart hconfigures rfl _ ?_
          (fun answer => (lookedUp_rest r.client schema _ answer).1)
          (lookedUp_rest r.client schema _ _).2
        intro v hv
        cases hv with
        | readData hfresh' =>
          cases hfresh.symm.trans hfresh'
          rfl

/-! ## Unknown values -/

/-- What reconciling makes of a fully known value is fully known exactly if each prior value is
that a predicate found equal on the way, so in particular if the prior value is as a whole. So it is
with the state that the provider returned, when a resource was created, updated or refreshed or a
data source was read, without an error. -/
theorem reconciled_isFullyKnown_iff (server : Server σ δ) (world : σ) :
    (∀ (schema : ActiveSchema σ) (prior proposed : Value), proposed.isFullyKnown = true →
      let r := (schema.reconcile prior proposed world).1
      (r.value.isFullyKnown = true ↔ ∀ compared ∈ r.calls, compared.KeepsKnown) ∧
        (prior.isFullyKnown = true → r.value.isFullyKnown = true)) ∧
    (∀ r : ApplyRequest, ((applyResource r).run server world).1.1.KnownAsReturned
      ⟨world, server, [], []⟩ r.typeName (r.plannedState.getD .null) ApplyResult.state) ∧
    (∀ r : ReadRequest, ((readResource r).run server world).1.1.KnownAsReturned
      ⟨world, server, [], []⟩ r.typeName (r.currentState.getD .null) ReadResult.state) ∧
    ∀ r : ReadDataRequest, ((readDataSource r).run server world).1.1.KnownAsReturned
      ⟨world, server, [], []⟩ r.typeName (r.config.getD .null) DataResult.state := by
  refine ⟨fun schema prior proposed hproposed => ?_, fun r => ?_, fun r => ?_, fun r => ?_⟩
  · exact schema.reconcile_isFullyKnown_iff prior hproposed world
  · exact knownAsReturned_applyResource r rfl
  · exact knownAsReturned_readResource r rfl
  · exact knownAsReturned_readDataSource r rfl

/-- Tags of which a predicate says that they never differ. -/
def taggedSchema : ActiveSchema Nat :=
  let alike : SemanticEquality Nat := fun _ _ asked => ((true, []), asked + 1)
  let tags : Attribute (Behaviour Nat) :=
    ⟨.list .string, .optionalComputed, none, none, none, ⟨[], some alike⟩⟩
  ⟨0, ⟨[("tags", tags)], [], none⟩⟩

def tagged (tag : Value) : Value := .map [("tags", .list [tag])]

/-- A server whose resource and whose data source have the tag "a", whatever was planned. -/
def taggedServer : Server Nat Unit :=
  let found : Described := ⟨tagged (.string "a"), taggedSchema.plain⟩
  let resource : Resource Nat Unit :=
    { name := fun provider => pure (provider ++ "_thing")
      declare := pure ⟨taggedSchema, []⟩
      configure := none
      actions := { idleActions Nat with
        create := fun r => pure { r.start with state := found }
        update := fun r => pure { r.start with state := found }
        read := fun r => pure { r.start with state := found } } }
  let dataSource : DataSource Nat Unit :=
    { name := fun provider => pure (provider ++ "_thing")
      declare := pure ⟨taggedSchema, []⟩
      configure := none
      actions := ⟨fun r => pure { r.start with state := found }, none⟩ }
  (Server.start { loneProvider taggedSchema with
    resources := pure [pure resource]
    dataSources := pure [pure dataSource] } .standard 0).1

/-- A create or an update that leaves the tag to the provider. -/
def taggedChange (prior : Option Value) : ApplyRequest where
  typeName := "lone_thing"
  priorState := prior
  plannedState := some (tagged .unknown)
  config := some (tagged .unknown)
  privateBytes := []
  providerMeta := none

def taggedRefresh : ReadRequest :=
  { namedRefresh [] with currentState := some (tagged (.string "b")) }

def taggedRead : ReadDataRequest := ⟨"lone_thing", some (tagged .unknown), none, .standard⟩

theorem tagged_isFullyKnown_iff :
    let r := (taggedSchema.reconcile (tagged .unknown) (tagged (.string "a")) 0).1
    let changed (prior : Option Value) : Answer Unit ApplyResult :=
      ((applyResource (taggedChange prior)).run taggedServer 0).1.1
    let refreshed := ((readResource taggedRefresh).run taggedServer 0).1.1
    let read := ((readDataSource taggedRead).run taggedServer 0).1.1
    (r.value.isFullyKnown = true ↔ ∀ compared ∈ r.calls, compared.KeepsKnown) ∧
    (Diagnostics.hasError (changed none).diagnostics = false ∧
      ((changed none).result.state.isFullyKnown = true ↔
        ∀ compared ∈ comparisons (changed none).calls, compared.KeepsKnown)) ∧
    (Diagnostics.hasError (changed (some namedState)).diagnostics = false ∧
      ((changed (some namedState)).result.state.isFullyKnown = true ↔
        ∀ compared ∈ comparisons (changed (some namedState)).calls, compared.KeepsKnown)) ∧
    (Diagnostics.hasError refreshed.diagnostics = false ∧
      refreshed.result.state.isFullyKnown = true) ∧
    Diagnostics.hasError read.diagnostics = false ∧
      (read.result.state.isFullyKnown = true ↔
        ∀ compared ∈ comparisons read.calls, compared.KeepsKnown) := by
  obtain ⟨hvalue, happly, hrefresh, hread⟩ := reconciled_isFullyKnown_iff taggedServer 0
  have hcreated := happly (taggedChange none) rfl _ List.mem_cons_self _ (.create rfl _) rfl
  have hupdated := happly (taggedChange (some namedState)) rfl _ List.mem_cons_self _
    (.update rfl _) rfl
  have hrefreshed := hrefresh taggedRefresh rfl _ List.mem_cons_self _ (.read rfl _) rfl
  have hfound := hread taggedRead rfl _ List.mem_cons_self _ (.readData rfl _) rfl
  exact ⟨(hvalue _ _ _ rfl).1, ⟨rfl, hcreated.1⟩, ⟨rfl, hupdated.1⟩, ⟨rfl, hrefreshed.2 rfl⟩, rfl,
    hfound.1⟩

/-- A planned tag that is not known yet is kept in the place of the one that was given. -/
theorem tagged_brings_unknown :
    let r := (taggedSchema.reconcile (tagged .unknown) (tagged (.string "a")) 0).1
    let created := ((applyResource (taggedChange none)).run taggedServer 0).1.1
    ((tagged (.string "a")).isFullyKnown = true ∧ r.value = tagged .unknown ∧
      r.value.isFullyKnown = false) ∧
    Diagnostics.hasError created.diagnostics = false ∧
      (∃ c ∈ created.calls, Returns ⟨0, taggedServer, [], []⟩ "lone_thing" c.callback
        (tagged (.string "a"))) ∧
      created.result.state = tagged .unknown ∧ created.result.state.isFullyKnown = false := by
  refine ⟨⟨rfl, rfl, rfl⟩, rfl, ⟨_, List.mem_cons_self, ?_⟩, rfl, rfl⟩
  exact @Returns.create _ _ ⟨0, taggedServer, [], []⟩ "lone_thing" _ _ _ rfl _

end ProviderKit.Server
