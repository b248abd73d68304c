import ProviderKit.Proofs.Function.Accepting
import ProviderKit.Proofs.Plan.Unchanged
import ProviderKit.Proofs.Server.Composition
import ProviderKit.Proofs.Server.Readiness

-- How calls of functions end. A function runs once at most, and only with arguments that its
-- definition accepts; the caller gets what it left, or an error and nothing else. A name that
-- cannot be looked up is such an error, because looking it up says why.

namespace ProviderKit.Server

variable {σ δ : Type}

/-! ## Ends of a call -/

/-- The provider offers a function under the name that is called, the function is given the
arguments of the call, dealt as it accepts them, and leaves this outcome. -/
inductive Invokes (f : Frame σ δ) (r : CallRequest) : Arguments → FunctionOutcome → Prop
  | intro {entry : Entry σ (ProviderFunction σ) Unit} {definition : FunctionDefinition}
      {g : Frame σ δ} {function : ProviderFunction σ} {world : σ} {arguments : Arguments}
      (hfound : Rpc.resolve functionSlot r.name f = (some (entry, definition), g))
      (hoffers : (functionSlot.source f.server.provider f.server.typeName).Offers r.name entry
        definition)
      (hgiven : arguments.values ++ arguments.variadic = r.arguments)
      (haccepts : definition.Accepts arguments)
      (hmade : entry.factory g.world = (function, world)) :
      Invokes f r arguments (function.run arguments world).1

/-- The only call is a run of the function, which left this outcome. -/
def RunsOnce (f : Frame σ δ) (r : CallRequest) (calls : List (Call δ)) (left : FunctionOutcome) :
    Prop :=
  ∃ c arguments, calls = [c] ∧ c.callback = .run arguments ∧ Invokes f r arguments left

/-- How a call ends. -/
inductive CallOutcome where
  | failed
  | ran

/-- What an answer is like when a call that started in a frame ends so. -/
def CallOutcome.Shows (f : Frame σ δ) (r : CallRequest) (answer : Answer δ CallResult) :
    CallOutcome → Prop
  | .failed => answer.result.error.isSome = true ∧ answer.result.result = .null
  | .ran => answer.result.error = none ∧ RunsOnce f r answer.calls ⟨answer.result.result, none⟩

theorem CallOutcome.Shows.unique {f : Frame σ δ} {r : CallRequest}
    {answer : Answer δ CallResult} {a b : CallOutcome} (ha : a.Shows f r answer)
    (hb : b.Shows f r answer) : a = b := by
  have herror : answer.result.error.isSome = true → answer.result.error = none → False := by
    intro hsome hnone
    rw [hnone] at hsome
    cases hsome
  cases a with
  | failed =>
    cases b with
    | failed => rfl
    | ran => exact (herror ha.1 hb.1).elim
  | ran =>
    cases b with
    | failed => exact (herror hb.1 ha.1).elim
    | ran => rfl

/-! ## The ways there -/

/-- What is answered, and which calls are made on the way. -/
inductive CallEnds (f : Frame σ δ) (r : CallRequest) : CallResult → List (Call δ) → Prop
  | unresolved (e : FuncError) (hnone : (Rpc.resolve functionSlot r.name f).1 = none) :
      CallEnds f r ⟨.null, some e⟩ []
  | refused (e : FuncError) (hfound : (Rpc.resolve functionSlot r.name f).1.isSome = true) :
      CallEnds f r ⟨.null, some e⟩ []
  | ran {calls : List (Call δ)} {left : FunctionOutcome} (hruns : RunsOnce f r calls left) :
      CallEnds f r
        (match left.error with
          | some e => ⟨.null, some e⟩
          | none => ⟨left.result, none⟩) calls

/-- The function that was found runs if it accepts the arguments. -/
theorem callFunction_of_found {r : CallRequest} {f g : Frame σ δ}
    {entry : Entry σ (ProviderFunction σ) Unit} {definition : FunctionDefinition}
    (hfound : Rpc.resolve functionSlot r.name f = (some (entry, definition), g)) :
    callFunction r f =
      match definition.arguments r.arguments with
      | .error e => (⟨.null, some e⟩, g)
      | .ok arguments =>
        let (function, world) := entry.factory g.world
        let (left, world) := function.run arguments world
        (match left.error with
          | some e => ⟨.null, some e⟩
          | none => ⟨left.result, none⟩,
          ⟨world, g.server, g.diagnostics ++ [],
            g.calls ++ [⟨.run arguments, g.diagnostics, []⟩]⟩) := by
  rw [callFunction, rpc_bind, hfound]
  dsimp only
  cases definition.arguments r.arguments with
  | error e => rfl
  | ok arguments =>
    dsimp only
    rw [rpc_bind, Rpc.act_eq]
    cases entry.factory g.world with
    | mk function world =>
    dsimp only
    rw [rpc_bind, Rpc.call, rpc_bind, Rpc.act_eq]
    cases function.run arguments world with
    | mk left world =>
    dsimp only
    rw [rpc_bind, Rpc.note_eq, rpc_pure]
    dsimp only
    cases left.error with
    | none => rfl
    | some e => rfl

/-- If nothing was found, looking it up has said why. -/
theorem callFunction_of_unresolved {r : CallRequest} {f g : Frame σ δ}
    (hfound : Rpc.resolve functionSlot r.name f = (none, g)) :
    ∃ e, callFunction r f = (⟨.null, some e⟩, g) := by
  have hsays := Rpc.ensures_resolve functionSlot r.name f
  rw [hfound] at hsays
  have herror : Diagnostics.hasError g.diagnostics = true := by
    by_contra hok
    cases hsays (Bool.eq_false_iff.mpr hok)
  obtain ⟨e, he⟩ := Option.isSome_iff_exists.mp (FuncError.isSome_ofDiagnostics herror)
  refine ⟨e, ?_⟩
  rw [callFunction, rpc_bind, hfound]
  dsimp only
  rw [rpc_bind, rpc_get, rpc_pure, he]

/-- Whatever comes of the call, it comes of it in one of these ways. -/
theorem callFunction_ends {provider : Provider σ δ} {typeName : String} {f : Frame σ δ}
    (hf : f.Grounded provider typeName) (hcalls : f.calls = []) (r : CallRequest) :
    CallEnds f r (callFunction r f).1 (callFunction r f).2.calls := by
  obtain ⟨rfl, rfl, hserver⟩ := hf
  have hoffers := (Frame.Grounded.resolve lawful_functionSlot
    (keeps_functionSource f.server.provider.keeps_any) r.name ⟨rfl, rfl, hserver⟩).2
  have hquiet : (Rpc.resolve functionSlot r.name f).2.calls = [] := hcalls
  cases hfound : Rpc.resolve functionSlot r.name f with
  | mk found g =>
  rw [hfound] at hoffers hquiet
  cases found with
  | none =>
    obtain ⟨e, hrun⟩ := callFunction_of_unresolved hfound
    rw [hrun]
    dsimp only
    rw [hquiet]
    exact .unresolved e (congrArg Prod.fst hfound)
  | some found =>
    obtain ⟨entry, definition⟩ := found
    rw [callFunction_of_found hfound]
    cases harguments : definition.arguments r.arguments with
    | error e =>
      dsimp only
      rw [hquiet]
      exact .refused e (congrArg (fun ended => ended.1.isSome) hfound)
    | ok arguments =>
      obtain ⟨hgiven, haccepts⟩ := FunctionDefinition.arguments_eq_ok_iff.mp harguments
      cases hmade : entry.factory g.world with
      | mk function world =>
      dsimp only
      rw [hquiet]
      exact .ran ⟨_, arguments, rfl, rfl,
        .intro hfound (hoffers entry definition rfl) hgiven haccepts hmade⟩

/-! ## Any call -/

theorem CallEnds.shows {f : Frame σ δ} {r : CallRequest} {result : CallResult}
    {calls : List (Call δ)} (h : CallEnds f r result calls) (ds : Diagnostics) :
    ∃ outcome : CallOutcome, outcome.Shows f r ⟨result, ds, calls⟩ := by
  cases h with
  | unresolved e _ => exact ⟨.failed, rfl, rfl⟩
  | refused e _ => exact ⟨.failed, rfl, rfl⟩
  | @ran _ left hruns =>
    obtain ⟨result, error⟩ := left
    cases error with
    | some e => exact ⟨.failed, rfl, rfl⟩
    | none => exact ⟨.ran, rfl, hruns⟩

/-- Only what was accepted runs, and that once. -/
theorem CallEnds.runs {f : Frame σ δ} {r : CallRequest} {result : CallResult}
    {calls : List (Call δ)} (h : CallEnds f r result calls) :
    calls = [] ∨ ∃ left, RunsOnce f r calls left := by
  cases h with
  | unresolved e _ => exact .inl rfl
  | refused e _ => exact .inl rfl
  | ran hruns => exact .inr ⟨_, hruns⟩

theorem CallEnds.of_unresolved {f : Frame σ δ} {r : CallRequest} {result : CallResult}
    {calls : List (Call δ)} (h : CallEnds f r result calls)
    (hnone : (Rpc.resolve functionSlot r.name f).1 = none) :
    result.error.isSome = true ∧ calls = [] := by
  cases h with
  | unresolved e _ => exact ⟨rfl, rfl⟩
  | refused e _ => exact ⟨rfl, rfl⟩
  | ran hruns =>
    obtain ⟨_, _, _, _, hinvokes⟩ := hruns
    cases hinvokes with
    | intro hfound _ _ _ _ =>
      rw [hfound] at hnone
      cases hnone

/-- Whatever a server was asked before, a call ends in exactly one of two ways: with an error and
nothing else, or with what the function left when it ran, once, on the arguments of the call. It
runs on nothing else, and a name that cannot be looked up ends in an error. -/
theorem call_ends_one_way (provider : Provider σ δ) (options : ServerOptions) (world : σ)
    (past : List Request) (r : CallRequest) :
    let started := Server.start provider options world
    let f := afterRun started.1 started.2 past
    let answer := ((callFunction r).run f.server f.world).1.1
    (∃! outcome : CallOutcome, outcome.Shows f r answer) ∧
      (answer.calls = [] ∨ ∃ left, RunsOnce f r answer.calls left) ∧
      ((Rpc.resolve functionSlot r.name f).1 = none →
        answer.result.error.isSome = true ∧ answer.calls = []) := by
  intro started f answer
  have hf : f.Grounded provider started.1.typeName := grounded_afterRun provider options world past
  have hends : CallEnds f r answer.result answer.calls := callFunction_ends hf rfl r
  obtain ⟨outcome, hshows⟩ := hends.shows answer.diagnostics
  exact ⟨⟨outcome, hshows, fun _ hother => hother.unique hshows⟩, hends.runs, hends.of_unresolved⟩

/-- A provider of one function, which gives its argument back. -/
def echoingProvider : Provider Nat Unit :=
  let text : Parameter := ⟨"text", .string, false, false, none⟩
  { loneProvider namedSchema with
    functions := pure [pure {
      name := pure "echo"
      define := pure ({ FunctionDefinition.empty with parameters := [text] }, [])
      run := fun a => pure ⟨a.values.headD .null, none⟩ }] }

/-- It does not know how to shout, and says so. -/
theorem echoing_cannot_shout :
    let started := Server.start echoingProvider .standard 0
    let f := afterRun started.1 started.2 [.getMetadata]
    let answer (name : String) : Answer Unit CallResult :=
      ((callFunction ⟨name, [.string "a"]⟩).run f.server f.world).1.1
    ((answer "echo").result.error = none ∧ (answer "echo").result.result = .string "a") ∧
      (Rpc.resolve functionSlot "shout" f).1 = none ∧
      (answer "shout").result.error.isSome = true ∧ (answer "shout").calls = [] := by
  have hshout := (call_ends_one_way echoingProvider .standard 0 [.getMetadata]
    ⟨"shout", [.string "a"]⟩).2.2 rfl
  exact ⟨⟨rfl, rfl⟩, rfl, hshout⟩

end ProviderKit.Server
