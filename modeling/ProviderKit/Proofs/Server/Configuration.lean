import ProviderKit.Proofs.Plan.Unchanged
import ProviderKit.Proofs.Server.Runs

-- Which configuration counts. A server keeps what its provider gave last, also when the provider
-- reported an error with it; only a deferral that the caller does not allow is refused. So the last
-- configuration without an error counts exactly as long as none with an error gave something new.

namespace ProviderKit.Server

variable {σ δ : Type}

/-- What the callback is handed is what a configuration has for it. -/
def Callback.HandedFrom (shared : SharedData δ) : Callback δ → Prop
  | .configureInstance "resource" _ data => data = shared.resource
  | .configureInstance "data source" _ data => data = shared.dataSource
  | .configureInstance "ephemeral resource" _ data => data = shared.ephemeralResource
  | .setUpStore _ r => r.data = shared.stateStore
  | _ => True

theorem Hands.handedFrom {server : Server σ δ} {callback : Callback δ} (h : server.Hands callback) :
    callback.HandedFrom server.shared := by
  unfold Callback.HandedFrom
  split
  · exact h
  · exact h
  · exact h
  · exact h
  · trivial

/-- The server keeps just what the configuration gave, the deferral included, and hands out what
it has for each kind, whatever it is asked next. -/
structure ConfiguredWith (f : Frame σ δ) (shared : SharedData δ) : Prop where
  kept : f.server.shared = shared
  handed : ∀ request, ∀ call ∈ (serve f.server request f.world).1.1.calls,
    call.callback.HandedFrom shared

theorem configuredWith_kept (f : Frame σ δ) : ConfiguredWith f f.server.shared :=
  ⟨rfl, fun request call hcall => (answer_hands f.server f.world request call hcall).handedFrom⟩

/-! ## Configurations with an error -/

/-- The answer to the request, which is to configure the provider, has an error. -/
def FailsToConfigure (f : Frame σ δ) (r : ConfigureProviderRequest) : Prop :=
  Diagnostics.hasError (configureProvider r f).2.diagnostics = true

instance (f : Frame σ δ) (r : ConfigureProviderRequest) : Decidable (FailsToConfigure f r) :=
  inferInstanceAs (Decidable (_ = true))

/-- What a request configures the server with if the answer has no error. -/
def succeeded? (f : Frame σ δ) : Request → Option (SharedData δ)
  | .configureProvider r => if FailsToConfigure f r then none else configuration? f r
  | _ => none

/-- A deferral that the caller does not allow is an error. -/
theorem refused_fails {f : Frame σ δ} {r : ConfigureProviderRequest} {shared : SharedData δ}
    (hgiven : configuration? f r = some shared)
    (hrefused : (shared.deferred.isSome && !r.client.deferralAllowed) = true) :
    FailsToConfigure f r := by
  cases hfound : Rpc.providerSchema f with
  | mk schema g =>
  cases schema with
  | none =>
    rw [configuration?, hfound] at hgiven
    cases hgiven
  | some schema =>
    obtain ⟨hcalled, hend⟩ := configureProvider_of_schema hfound r
    rw [hgiven] at hcalled
    rw [FailsToConfigure, hend, ← Option.some.inj hcalled, if_pos hrefused, Rpc.report_eq,
      Diagnostics.hasError_append]
    exact Bool.or_true _

/-- Without an error, nothing that the provider gives is refused. -/
theorem succeeded?_eq_taken? {f : Frame σ δ} {request : Request}
    (hok : ∀ r, request = .configureProvider r → ¬ FailsToConfigure f r) :
    succeeded? f request = taken? f request := by
  cases request with
  | configureProvider r =>
    rw [succeeded?, if_neg (hok r rfl), taken?]
    cases hgiven : configuration? f r with
    | none => rfl
    | some shared =>
      have hkept : (shared.deferred.isSome && !r.client.deferralAllowed) ≠ true :=
        fun hrefused => hok r rfl (refused_fails hgiven hrefused)
      rw [Option.filter_some, Bool.not_eq_true _ |>.mp hkept]
      rfl
  | _ => rfl

/-- A request that configures the server with nothing new leaves it as it was. -/
theorem agrees_of_nothing_new {f : Frame σ δ} {request : Request}
    (htaken : ∀ shared, taken? f request = some shared → shared = f.server.shared)
    (hstored : stored? f request = none) : f.server.Agrees (serving request f).2.server := by
  obtain ⟨g, hmoves, hend⟩ := serving_serves request f
  have hagrees := hmoves.hands.agrees
  rw [hend, configuredBy, hstored]
  refine { hagrees with shared := ?_ }
  cases hgiven : taken? f request with
  | none => exact hagrees.shared
  | some shared => exact htaken shared hgiven

/-! ## The last success -/

/-- All along the run, the server is configured with what was given last without an error, and a
request to configure it that fails leaves it as it was. -/
structure LastSuccessCounts (server : Server σ δ) (world : σ) (run : List Request) : Prop where
  configured : ∀ past, past <+: run →
    ConfiguredWith (afterRun server world past) (latest succeeded? .none server world past)
  failures : ∀ past r, past ++ [.configureProvider r] <+: run →
    FailsToConfigure (afterRun server world past) r →
    (afterRun server world past).server.Agrees
      (afterRun server world (past ++ [.configureProvider r])).server

/-- No request of the run configured the server with something new and failed. -/
def NothingNewFromFailures (server : Server σ δ) (world : σ) (run : List Request) : Prop :=
  ∀ past r, past ++ [.configureProvider r] <+: run →
    FailsToConfigure (afterRun server world past) r →
    ∀ shared, taken? (afterRun server world past) (.configureProvider r) = some shared →
      shared = (afterRun server world past).server.shared

theorem NothingNewFromFailures.agrees {server : Server σ δ} {world : σ} {run past : List Request}
    {r : ConfigureProviderRequest} (h : NothingNewFromFailures server world run)
    (hpast : past ++ [.configureProvider r] <+: run)
    (hfails : FailsToConfigure (afterRun server world past) r) :
    (afterRun server world past).server.Agrees
      (afterRun server world (past ++ [.configureProvider r])).server := by
  rw [afterRun_snoc]
  exact agrees_of_nothing_new (h past r hpast hfails) rfl

theorem NothingNewFromFailures.shared {server : Server σ δ} {world : σ} {run : List Request}
    (h : NothingNewFromFailures server world run) (hnew : server.shared = .none) :
    ∀ past, past <+: run →
      (afterRun server world past).server.shared = latest succeeded? .none server world past := by
  intro past
  induction past using List.reverseRecOn with
  | nil => exact fun _ => hnew
  | append_singleton past request ih =>
    intro hpast
    have hkept := ih ((List.prefix_append past [request]).trans hpast)
    rw [latest_snoc, ← hkept]
    -- A request that fails leaves what there was; any other counts for just what it is taken for.
    by_cases hfails : ∃ r, request = .configureProvider r ∧
        FailsToConfigure (afterRun server world past) r
    · obtain ⟨r, rfl, hfails⟩ := hfails
      rw [succeeded?, if_pos hfails]
      exact (h.agrees hpast hfails).shared
    · have hok : ∀ r, request = .configureProvider r →
          ¬ FailsToConfigure (afterRun server world past) r :=
        fun r hr hfailed => hfails ⟨r, hr, hfailed⟩
      rw [succeeded?_eq_taken? hok, afterRun_snoc]
      exact serving_shared request _

theorem lastSuccessCounts_iff {server : Server σ δ} {world : σ} (hnew : server.shared = .none)
    (run : List Request) :
    LastSuccessCounts server world run ↔ NothingNewFromFailures server world run := by
  constructor
  · intro h past r hpast hfails shared htaken
    have hshared := (h.failures past r hpast hfails).shared
    rw [afterRun_snoc] at hshared
    have htook := serving_shared (.configureProvider r) (afterRun server world past)
    rw [htaken] at htook
    exact htook.symm.trans hshared
  · intro h
    refine ⟨fun past hpast => ?_, fun past r => h.agrees⟩
    rw [← h.shared hnew past hpast]
    exact configuredWith_kept _

/-- A provider's server hands out what it was configured with last, whether or not there was an
error, unless that was refused. So the last configuration without an error counts exactly as long as
no configuration with an error gave something new. -/
theorem last_success_counts_iff (provider : Provider σ δ) (options : ServerOptions) (world : σ)
    (run : List Request) :
    let started := Server.start provider options world
    ConfiguredWith (afterRun started.1 started.2 run)
        (latest taken? .none started.1 started.2 run) ∧
      (LastSuccessCounts started.1 started.2 run ↔
        NothingNewFromFailures started.1 started.2 run) := by
  intro started
  have hnew : started.1.shared = .none := rfl
  refine ⟨?_, lastSuccessCounts_iff hnew run⟩
  rw [← hnew, ← afterRun_shared]
  exact configuredWith_kept _

/-- A provider that hands its resources a token, and reports at once that it has expired. -/
def tokenProvider : Provider Nat String where
  metadata := pure ⟨"lone", "1"⟩
  declare := pure ⟨.empty, []⟩
  metaSchema := none
  configure _ :=
    pure ({ SharedData.none with resource := some "expired" }, [.error "Token Expired" ""])
  validateConfig := none
  resources := pure [pure {
    name := fun provider => pure (provider ++ "_thing")
    declare := pure ⟨namedSchema, []⟩
    configure := some fun _ => pure (idleActions Nat, [])
    actions := idleActions Nat }]
  dataSources := pure []
  ephemeralResources := pure []
  functions := pure []
  stateStores := pure []

/-- Though the configuration failed, and nothing was configured before, a resource is handed the
token that it gave. -/
theorem expired_token_handed :
    let started : Server Nat String := (Server.start tokenProvider .standard 0).1
    let login : ConfigureProviderRequest := ⟨some (.map []), "", ⟨false⟩⟩
    let refresh : Server.ReadRequest := ⟨"lone_thing", some namedState, [], none, ⟨false⟩⟩
    let f := afterRun started 0 [.configureProvider login]
    ¬ LastSuccessCounts started 0 [.configureProvider login] ∧
      FailsToConfigure (afterRun started 0 []) login ∧
      ((serve f.server (.readResource refresh) f.world).1.1.calls.map (·.callback)).head? =
        some (.configureInstance "resource" "lone_thing" (some "expired")) := by
  refine ⟨fun h => ?_, rfl, rfl⟩
  have hkept := (h.configured _ List.prefix_rfl).kept
  cases congrArg SharedData.resource hkept

end ProviderKit.Server
