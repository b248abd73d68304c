import ProviderKit.Proofs.Server.Composition
import ProviderKit.Proofs.Server.Retention

-- What servers keep, and what this hides. If the provider's code gives the same answers in every
-- world, a server that has served before answers as a fresh one does, but for what it says: what
-- the provider reported about a declaration is told once, unless it has an error.

namespace ProviderKit

/-- The request configures the provider or a state store. -/
def Request.configures : Request → Bool
  | .configureProvider _ => true
  | .configureStore _ => true
  | _ => false

namespace Server

variable {σ δ α γ ι κ η : Type} {provider : Provider σ δ} {typeName : String} {here : σ}

/-! ## Frames that tell lines -/

/-- From one frame to another certain lines were told, those about known topics left out. -/
structure Frame.Tells (provider : Provider σ δ) (typeName : String) (here : σ) (f g : Frame σ δ)
    (ls : List (Line Topic)) : Prop where
  diagnostics : g.diagnostics =
    f.diagnostics ++ told (notices provider typeName here) f.server.keeps ls
  keeps : g.server.keeps = knownAfter (notices provider typeName here) f.server.keeps ls

namespace Frame.Tells

variable {f g h : Frame σ δ} {ls ms : List (Line Topic)}

theorem trans (hfg : f.Tells provider typeName here g ls)
    (hgh : g.Tells provider typeName here h ms) : f.Tells provider typeName here h (ls ++ ms) where
  diagnostics := by rw [hgh.diagnostics, hfg.diagnostics, hfg.keeps, told_append, List.append_assoc]
  keeps := by rw [hgh.keeps, hfg.keeps, knownAfter_append]

/-- The framework says something, and the server finds out nothing. -/
theorem own {ds : Diagnostics} (hdiagnostics : g.diagnostics = f.diagnostics ++ ds)
    (hserver : g.server = f.server) : f.Tells provider typeName here g [.own ds] where
  diagnostics := by rw [hdiagnostics, told_singleton]; rfl
  keeps := congrArg Server.keeps hserver

theorem silent (hdiagnostics : g.diagnostics = f.diagnostics)
    (hkeeps : g.server.keeps = f.server.keeps) : f.Tells provider typeName here g [] where
  diagnostics := hdiagnostics.trans (List.append_nil _).symm
  keeps := hkeeps

end Frame.Tells

/-! ## Steady steps -/

/-- Wherever it starts, the step gives the same and tells the same lines. -/
def Rpc.Steady (provider : Provider σ δ) (typeName : String) (here : σ) (rpc : Rpc σ δ α) : Prop :=
  ∃ a ls, ∀ f : Frame σ δ, f.Grounded provider typeName →
    (rpc f).1 = a ∧ f.Tells provider typeName here (rpc f).2 ls ∧ f.server.Agrees (rpc f).2.server

theorem steady_act {action : StateM σ α} (h : (Conduct.steady σ).Silent action) :
    Rpc.Steady provider typeName here (Rpc.act action : Rpc σ δ α) :=
  ⟨(action here).1, [], fun f _ => ⟨h f.world here, .silent rfl rfl, .refl _⟩⟩

theorem steady_report (ds : Diagnostics) :
    Rpc.Steady provider typeName here (Rpc.report ds : Rpc σ δ Unit) :=
  ⟨(), [.own ds], fun _ _ => ⟨rfl, .own rfl rfl, .refl _⟩⟩

theorem steady_callAll {β : Type} {action : StateM σ α} {runs : α → List β}
    {callback : β → Callback δ} {said noted : β → Diagnostics}
    (h : (Conduct.steady σ).Keeps action fun a => (runs a).flatMap said)
    (hnotes : ∀ b, (callback b).Notes (said b) (noted b)) :
    Rpc.Steady provider typeName here (do
      let a ← Rpc.act action
      Rpc.noteAll callback noted (runs a)
      return a : Rpc σ δ α) := by
  refine ⟨(action here).1, [.own ((runs (action here).1).flatMap noted)], fun f _ => ?_⟩
  have hsame : (action f.world).1 = (action here).1 := h f.world here
  obtain ⟨cs, hrun, -⟩ := Rpc.callAll_eq hnotes f
  rw [hrun, hsame]
  exact ⟨rfl, .own rfl rfl, .refl _⟩

/-- Work on the shelf of a slot, whose reports are passed on. -/
def Rpc.consult (s : Slot σ δ ι κ η) (work : Shelf.Work σ ι κ η (α × Diagnostics)) : Rpc σ δ α := do
  let (a, ds) ← Rpc.onShelf s work
  Rpc.report ds
  return a

theorem Rpc.consult_eq (s : Slot σ δ ι κ η) (work : Shelf.Work σ ι κ η (α × Diagnostics))
    (f : Frame σ δ) :
    Rpc.consult s work f =
      let ((answer, shelf), world) := work (s.shelf f.server) f.world
      (answer.1, { f with
        world := world
        server := s.put f.server shelf
        diagnostics := f.diagnostics ++ answer.2 }) := rfl

theorem steady_consult {s : Slot σ δ ι κ η} (hs : s.Lawful)
    {work : Shelf.Work σ ι κ η (α × Diagnostics)} {a : α} {ls : List (Line String)}
    (hwork : Shelf.Tells (s.source provider typeName) here
      (Shelf.Grounded (s.source provider typeName)) work a ls) :
    Rpc.Steady provider typeName here (Rpc.consult s work) := by
  obtain ⟨topic, hfiles⟩ := hs.files
  refine ⟨a, ls.map (Line.map topic), fun f hf => ?_⟩
  have hshelf := hs.grounded f.server hf.grounded
  rw [hf.provider, hf.typeName] at hshelf
  obtain ⟨hanswer, hkeeps⟩ := hwork _ hshelf f.world
  have hnotices : (fun name => notices provider typeName here (topic name)) =
      (s.source provider typeName).notices here := funext (hfiles.notices provider typeName here)
  have hkept : (fun name => f.server.keeps (topic name)) = (s.shelf f.server).keeps :=
    funext (hfiles.keeps f.server)
  rw [Rpc.consult_eq]
  generalize work (s.shelf f.server) f.world = done at hanswer hkeeps
  obtain ⟨⟨⟨answer, ds⟩, shelf⟩, world⟩ := done
  dsimp only at hanswer hkeeps ⊢
  cases hanswer
  refine ⟨rfl, ⟨?_, funext fun t => ?_⟩, hs.put f.server shelf⟩
  · rw [told_map hfiles.injective, hnotices, hkept]
  · by_cases ht : ∃ name, t = topic name
    · obtain ⟨name, rfl⟩ := ht
      rw [knownAfter_map hfiles.injective, hnotices, hkept, ← hkeeps]
      exact (hfiles.keeps _ name).trans (congrArg (Shelf.keeps · name) (hs.shelf_put _ _))
    · have hne : ∀ name, t ≠ topic name := fun name heq => ht ⟨name, heq⟩
      rw [knownAfter_map_of_ne _ hne]
      exact hfiles.keeps_put f.server shelf t hne

/-- A step that consults the shelf about what this provider declares. -/
theorem steady_of_consult {s : Slot σ δ ι κ η} (hs : s.Lawful) {rpc : Rpc σ δ α}
    (work : String → StateM σ (List (Factory σ ι)) → Shelf.Work σ ι κ η (α × Diagnostics))
    (hrpc : ∀ f, rpc f =
      Rpc.consult s (work f.server.typeName (s.declarations f.server.provider)) f)
    (htells : ∃ a ls, Shelf.Tells (s.source provider typeName) here
      (Shelf.Grounded (s.source provider typeName)) (work typeName (s.declarations provider))
      a ls) :
    Rpc.Steady provider typeName here rpc := by
  obtain ⟨_, _, htells⟩ := htells
  obtain ⟨a, ls, hsteady⟩ := steady_consult hs htells
  refine ⟨a, ls, fun f hf => ?_⟩
  rw [hrpc, hf.provider, hf.typeName]
  exact hsteady f hf

section

variable {s : Slot σ δ ι κ η} (hs : s.Lawful) {Good : ι → Prop}
  (h : (s.source provider typeName).Keeps (.steady σ) Good)

include hs h

theorem steady_resolve (name : String) :
    Rpc.Steady provider typeName here (Rpc.resolve s name) :=
  steady_of_consult hs (Shelf.resolve s.kind · · name) (fun _ => rfl)
    (Shelf.tells_resolve h here name)

theorem steady_listNames : Rpc.Steady provider typeName here (Rpc.listNames s) :=
  steady_of_consult hs (Shelf.listNames s.kind) (fun _ => rfl) (Shelf.tells_listNames h here)

theorem steady_describeAll : Rpc.Steady provider typeName here (Rpc.describeAll s) :=
  steady_of_consult hs (Shelf.describeAll s.kind) (fun _ => rfl) (Shelf.tells_describeAll h here)

end

/-- The provider's own schema is kept as declarations are. -/
theorem steady_providerSchema (h : (Conduct.steady σ).Silent provider.declare) :
    Rpc.Steady provider typeName here (Rpc.providerSchema : Rpc σ δ (Option PlainSchema)) := by
  let declared := (provider.declare here).1
  refine ⟨if Diagnostics.hasError declared.diagnostics then none else some declared.schema.plain,
    [.about .provider], fun f hf => ?_⟩
  have hsame (world : σ) : (provider.declare world).1 = declared := h world here
  cases hschema : f.server.providerSchema with
  | some schema =>
    have hkeeps : f.server.keeps .provider = true := congrArg Option.isSome hschema
    obtain ⟨htold, hafter⟩ := about_of_known (notices provider typeName here) hkeeps
    obtain ⟨world, hplain, hok⟩ := hf.grounded.providerSchema schema hschema
    rw [hf.provider, hsame] at hplain hok
    rw [Rpc.providerSchema_of_some hschema, hok, if_neg Bool.false_ne_true, hplain]
    exact ⟨rfl, ⟨(htold ▸ (List.append_nil _).symm), hafter.symm⟩, .refl _⟩
  | none =>
    have hkeeps : f.server.keeps .provider = false := congrArg Option.isSome hschema
    obtain ⟨htold, hafter⟩ := about_of_unknown (notices provider typeName here) hkeeps
    have hnotices : notices provider typeName here .provider = declared.diagnostics := rfl
    rw [hnotices] at htold hafter
    rw [Rpc.providerSchema_of_none hschema, hf.provider, hsame]
    cases hok : Diagnostics.hasError declared.diagnostics with
    | true =>
      refine ⟨rfl, ⟨congrArg (f.diagnostics ++ ·) htold.symm, ?_⟩, .refl _⟩
      rw [hafter, hok]
      simp
    | false =>
      refine ⟨rfl, ⟨congrArg (f.diagnostics ++ ·) htold.symm, ?_⟩,
        ⟨rfl, rfl, rfl, rfl, rfl, rfl, rfl⟩⟩
      rw [hafter, hok]
      simpa using keeps_providerSchema f.server declared.schema.plain

/-! ## Alike frames -/

theorem Agrees.symm {s t : Server σ δ} (h : s.Agrees t) : t.Agrees s :=
  ⟨h.provider.symm, h.typeName.symm, h.version.symm, h.options.symm, h.metaSchema.symm,
    h.shared.symm, h.storeData.symm⟩

/-- The frames differ at most in what their servers have found out, and in warnings. -/
structure Frame.Alike (provider : Provider σ δ) (typeName : String) (f g : Frame σ δ) : Prop where
  left : f.Grounded provider typeName
  right : g.Grounded provider typeName
  agrees : f.server.Agrees g.server
  errors : g.diagnostics.errors = f.diagnostics.errors

/-- From either frame the step gives the same and tells the same lines. -/
structure Frame.GoAlike (provider : Provider σ δ) (typeName : String) (here : σ) (rpc : Rpc σ δ α)
    (f g : Frame σ δ) (ls : List (Line Topic)) : Prop where
  answer : (rpc g).1 = (rpc f).1
  left : f.Tells provider typeName here (rpc f).2 ls
  right : g.Tells provider typeName here (rpc g).2 ls
  agrees : (rpc f).2.server.Agrees (rpc g).2.server

theorem Rpc.Steady.goAlike {rpc : Rpc σ δ α} (h : Rpc.Steady provider typeName here rpc)
    {f g : Frame σ δ} (hfg : f.Alike provider typeName g) :
    ∃ ls, f.GoAlike provider typeName here rpc g ls := by
  obtain ⟨a, ls, hsteady⟩ := h
  obtain ⟨hf, hleft, hagrees⟩ := hsteady f hfg.left
  obtain ⟨hg, hright, hagrees'⟩ := hsteady g hfg.right
  exact ⟨ls, hg.trans hf.symm, hleft, hright, (hagrees.symm.trans hfg.agrees).trans hagrees'⟩

theorem Frame.GoAlike.bind {rpc : Rpc σ δ α} {next : α → Rpc σ δ γ} {f g : Frame σ δ}
    {ls ms : List (Line Topic)} (h : f.GoAlike provider typeName here rpc g ls)
    (hnext : (rpc f).2.GoAlike provider typeName here (next (rpc f).1) (rpc g).2 ms) :
    f.GoAlike provider typeName here (rpc >>= next) g (ls ++ ms) := by
  have hg : (rpc >>= next) g = next (rpc f).1 (rpc g).2 := by rw [rpc_bind, h.answer]
  refine ⟨?_, h.left.trans hnext.left, ?_, ?_⟩
  · rw [hg]
    exact hnext.answer
  · rw [hg]
    exact h.right.trans hnext.right
  · rw [hg]
    exact hnext.agrees

/-- Whatever well-founded servers know, they know nothing that is said with an error. -/
def SoundlyKept (provider : Provider σ δ) (typeName : String) (here : σ) : Prop :=
  ∀ f : Frame σ δ, f.Grounded provider typeName →
    KnownSound (notices provider typeName here) f.server.keeps

theorem soundlyKept (h : provider.Keeps (.steady σ)) : SoundlyKept provider typeName here := by
  rintro f ⟨rfl, rfl, hf⟩ t ht
  cases t with
  | provider =>
    obtain ⟨schema, hschema⟩ := Option.isSome_iff_exists.mp ht
    obtain ⟨world, -, hok⟩ := hf.providerSchema schema hschema
    have hsame : (f.server.provider.declare world).1 = (f.server.provider.declare here).1 :=
      h.declare world here
    rw [hsame] at hok
    exact hok
  | resource name => exact hf.resources.knownSound (keepsTypes_resourceSlot h).source here name ht
  | dataSource name =>
    exact hf.dataSources.knownSound (keepsTypes_dataSourceSlot h).source here name ht
  | ephemeralResource name =>
    exact hf.ephemeralResources.knownSound (keepsTypes_ephemeralSlot h).source here name ht
  | function name => exact hf.functions.knownSound (keeps_functionSource h) here name ht
  | stateStore name =>
    exact hf.stateStores.knownSound (keepsTypes_stateStoreSlot h).source here name ht

/-- Alike frames stay alike. -/
theorem Frame.GoAlike.alike {rpc : Rpc σ δ α} {Q : α → Prop} {f g : Frame σ δ}
    {ls : List (Line Topic)} (h : f.GoAlike provider typeName here rpc g ls)
    (hsound : SoundlyKept provider typeName here)
    (hrpc : Composed (.steady σ) provider typeName Q rpc) (hfg : f.Alike provider typeName g) :
    (rpc f).2.Alike provider typeName (rpc g).2 where
  left := (hrpc.grounded hfg.left).1
  right := (hrpc.grounded hfg.right).1
  agrees := h.agrees
  errors := by
    have htold := errors_told (hsound f hfg.left) (hsound g hfg.right) ls
    have herrors := hfg.errors
    rw [h.left.diagnostics, h.right.diagnostics]
    simp only [Diagnostics.errors, List.filter_append] at htold herrors ⊢
    rw [htold, herrors]

/-- Every step that is put together goes alike from alike frames. -/
theorem Composed.goAlike {rpc : Rpc σ δ α} {Q : α → Prop}
    (h : Composed (.steady σ) provider typeName Q rpc) (hsound : SoundlyKept provider typeName here)
    {f g : Frame σ δ} (hfg : f.Alike provider typeName g) :
    ∃ ls, f.GoAlike provider typeName here rpc g ls := by
  induction h generalizing f g with
  | pure _ => exact ⟨[], rfl, .silent rfl rfl, .silent rfl rfl, hfg.agrees⟩
  | bind hrpc _ ih ihnext =>
    obtain ⟨ls, hls⟩ := ih hfg
    have hq := (hrpc.grounded hfg.left).2
    obtain ⟨ms, hms⟩ := ihnext _ hq (hls.alike hsound hrpc hfg)
    exact ⟨ls ++ ms, hls.bind hms⟩
  | report ds => exact (steady_report ds).goAlike hfg
  | @ask _ _ next h _ ih =>
    obtain ⟨ls, hls⟩ := ih f hfg.left.provider hfg
    have hg : (get >>= next) g = next f g := by
      rw [rpc_bind, rpc_get]
      dsimp only
      rw [h f g hfg.agrees hfg.errors]
    refine ⟨ls, ?_, hls.left, ?_, ?_⟩
    · rw [hg]
      exact hls.answer
    · rw [hg]
      exact hls.right
    · rw [hg]
      exact hls.agrees
  | act h _ => exact (steady_act h).goAlike hfg
  | callAll h hnotes _ => exact (steady_callAll h hnotes).goAlike hfg
  | resolve hs h name => exact (steady_resolve hs h name).goAlike hfg
  | listNames hs h => exact (steady_listNames hs h).goAlike hfg
  | describeAll hs h => exact (steady_describeAll hs h).goAlike hfg
  | providerSchema h => exact (steady_providerSchema h).goAlike hfg
  | share shared =>
    exact ⟨[], rfl, .silent rfl rfl, .silent rfl rfl, { hfg.agrees with shared := rfl }⟩
  | store data =>
    exact ⟨[], rfl, .silent rfl rfl, .silent rfl rfl, { hfg.agrees with storeData := rfl }⟩

/-! ## Servers that have served before -/

theorem taken?_eq_none {request : Request} (h : request.configures = false) (f : Frame σ δ) :
    taken? f request = none := by
  cases request <;> first | rfl | cases h

theorem stored?_eq_none {request : Request} (h : request.configures = false) (f : Frame σ δ) :
    stored? f request = none := by
  cases request <;> first | rfl | cases h

/-- A run that configures nothing leaves the server with what it had for instances. -/
theorem agrees_afterRun {server : Server σ δ} {world : σ} {past : List Request}
    (hpast : ∀ request ∈ past, request.configures = false) :
    server.Agrees (afterRun server world past).server := by
  induction past using List.reverseRecOn with
  | nil => exact .refl server
  | append_singleton past request ih =>
    have hrequest : request.configures = false := hpast request (by simp)
    obtain ⟨g, hmoves, hend⟩ := serving_serves request (afterRun server world past)
    rw [configuredBy_of_none (taken?_eq_none hrequest _) (stored?_eq_none hrequest _)] at hend
    rw [afterRun_snoc, hend]
    refine (ih fun r hr => hpast r (by simp [hr])).trans ?_
    exact hmoves.hands.agrees

theorem keeps_start (provider : Provider σ δ) (options : ServerOptions) (world : σ) :
    (Server.start provider options world).1.keeps = fun _ => false := by
  funext t
  cases t <;> rfl

/-- After a run that configures nothing, a server is like a fresh one of the same provider. -/
theorem alike_afterRun {options : ServerOptions} {world : σ} {past : List Request}
    (hsteady : provider.Keeps (.steady σ))
    (hpast : ∀ request ∈ past, request.configures = false) (elsewhere : σ) :
    let started := Server.start provider options world
    let opened := Server.start provider options elsewhere
    (afterRun started.1 started.2 past).Alike provider opened.1.typeName
      (.opening opened.1 opened.2) := by
  intro started opened
  have hmetadata : (provider.metadata world).1 = (provider.metadata elsewhere).1 :=
    hsteady.metadata world elsewhere
  have hname : started.1.typeName = opened.1.typeName :=
    congrArg ProviderMetadata.typeName hmetadata
  have hversion : started.1.version = opened.1.version :=
    congrArg ProviderMetadata.version hmetadata
  have hstarted : started.1.Agrees opened.1 :=
    ⟨rfl, hname.symm, hversion.symm, rfl, rfl, rfl, rfl⟩
  refine ⟨hname ▸ grounded_afterRun provider options world past,
    grounded_start provider options elsewhere, ?_, rfl⟩
  exact (agrees_afterRun hpast).symm.trans hstarted

/-- A steady provider's server gives the same after any run that configures nothing, with the same
errors and no new diagnostics. It also says the same exactly if the request needs nothing that was
found out with warnings before. -/
theorem answer_after_run (provider : Provider σ δ) (options : ServerOptions) (world elsewhere : σ)
    (past : List Request) (request : Request) (hsteady : provider.Keeps (.steady σ))
    (hpast : ∀ earlier ∈ past, earlier.configures = false) :
    let started := Server.start provider options world
    let f := afterRun started.1 started.2 past
    let later := (serve f.server request f.world).1.1
    let opened := Server.start provider options elsewhere
    let served := serve opened.1 request opened.2
    let fresh := served.1.1
    later.result = fresh.result ∧ later.diagnostics.errors = fresh.diagnostics.errors ∧
      later.diagnostics.Sublist fresh.diagnostics ∧
      (later.diagnostics = fresh.diagnostics ↔ ∀ topic, f.server.keeps topic = true →
        served.1.2.keeps topic = true →
          notices provider opened.1.typeName elsewhere topic = []) := by
  intro started f later opened served fresh
  let said := notices provider opened.1.typeName elsewhere
  have halike : f.Alike provider opened.1.typeName (.opening opened.1 opened.2) :=
    alike_afterRun hsteady hpast elsewhere
  have hsound : SoundlyKept provider opened.1.typeName elsewhere := soundlyKept hsteady
  obtain ⟨ls, hgo⟩ := (composed_serving hsteady request).goAlike hsound halike
  have hkept : KnownSound said f.server.keeps := hsound f halike.left
  have hnothing : opened.1.keeps = fun _ => false := keeps_start provider options elsewhere
  have hlater : later.diagnostics = told said f.server.keeps ls := hgo.left.diagnostics
  have hfresh : fresh.diagnostics = told said (fun _ => false) ls :=
    hnothing ▸ hgo.right.diagnostics
  have hlearnt : served.1.2.keeps = knownAfter said (fun _ => false) ls :=
    hnothing ▸ hgo.right.keeps
  have hle : ∀ t, (fun _ : Topic => false) t = true → f.server.keeps t = true := nofun
  refine ⟨hgo.answer.symm, ?_, ?_, ?_⟩
  · rw [hlater, hfresh]
    exact errors_told hkept (fun _ h => by cases h) ls
  · rw [hlater, hfresh]
    exact told_sublist hle ls
  · rw [hlater, hfresh, hlearnt, told_eq_iff hle]
    constructor
    · intro hnone topic htopic hserved
      by_contra hsaid
      have hmem := ((knownAfter_iff.mp hserved).resolve_left nofun).1
      exact hnone ⟨topic, rfl, htopic, hmem, hsaid⟩
    · rintro hquiet ⟨topic, -, htopic, hmem, hsaid⟩
      exact hsaid (hquiet topic htopic (knownAfter_iff.mpr (.inr ⟨hmem, hkept topic htopic⟩)))

def outdated : Diagnostic := .warning "Outdated" "There is a newer kind of thing."

/-- A steady provider of one resource type, which says that the type is outdated. -/
def outdatedProvider : Provider Nat Unit :=
  { loneProvider namedSchema with
    resources := pure [pure {
      name := fun provider => pure (provider ++ "_thing")
      declare := pure ⟨namedSchema, [outdated]⟩
      configure := none
      actions := idleActions Nat }] }

theorem keeps_namedSchema : namedSchema.Keeps (.steady Nat) := by
  intro b hb
  rcases List.mem_cons.mp hb with rfl | hb
  · refine ⟨fun m hm => ?_, fun _ h => by cases h⟩
    cases List.mem_singleton.mp hm
    trivial
  · cases List.mem_singleton.mp hb
    refine ⟨fun m hm => ?_, fun _ h => by cases h⟩
    cases List.mem_singleton.mp hm
    exact fun _ _ _ => rfl

theorem keeps_outdatedProvider : outdatedProvider.Keeps (.steady Nat) where
  metadata _ _ := rfl
  declare _ _ := rfl
  configure _ _ _ := rfl
  validateConfig _ h := by cases h
  resources := by
    refine ⟨fun _ _ => rfl, fun _ factory hfactory => ?_⟩
    cases List.mem_singleton.mp hfactory
    exact ⟨fun _ _ => rfl, fun _ => {
      name := fun _ _ _ => rfl
      declare := fun _ _ => rfl
      schema := fun _ => keeps_namedSchema
      configure := fun _ h => by cases h
      configured := fun _ h => by cases h
      actions := {
        create := fun _ _ _ => rfl
        read := fun _ _ _ => rfl
        update := fun _ _ _ => rfl
        delete := fun _ _ _ => rfl
        modifyPlan := fun _ h => by cases h
        validateConfig := fun _ h => by cases h
        upgraders := fun _ h => by cases h
        importState := fun _ h => by cases h } }⟩
  dataSources := ⟨fun _ _ => rfl, fun _ _ h => by cases h⟩
  ephemeralResources := ⟨fun _ _ => rfl, fun _ _ h => by cases h⟩
  functions := ⟨fun _ _ => rfl, fun _ _ h => by cases h⟩
  stateStores := ⟨fun _ _ => rfl, fun _ _ h => by cases h⟩

/-- Listing names describes nothing, so a read after it says what it always says. -/
theorem refresh_after_metadata :
    let started := Server.start outdatedProvider .standard 0
    let f := afterRun started.1 started.2 [.getMetadata]
    let later := (serve f.server (.readResource (namedRefresh [])) f.world).1.1
    let opened := Server.start outdatedProvider .standard 7
    let fresh := (serve opened.1 (.readResource (namedRefresh [])) opened.2).1.1
    outdatedProvider.Keeps (.steady Nat) ∧ Request.getMetadata.configures = false ∧
      later.result = fresh.result ∧ later.diagnostics = fresh.diagnostics ∧
      fresh.diagnostics = [outdated] := by
  obtain ⟨hresult, -, -, hsame⟩ := answer_after_run outdatedProvider .standard 0 7 [.getMetadata]
    (.readResource (namedRefresh [])) keeps_outdatedProvider
    fun _ h => by cases List.mem_singleton.mp h; rfl
  refine ⟨keeps_outdatedProvider, rfl, hresult, hsame.mpr fun topic h _ => ?_, rfl⟩
  cases topic <;> cases h

/-- Though nothing was configured, the second of two equal reads says less than the first. -/
theorem second_refresh_says_less :
    let opened := Server.start outdatedProvider .standard 0
    let first := serve opened.1 (.readResource (namedRefresh [])) opened.2
    let second := serve first.1.2 (.readResource (namedRefresh [])) first.2
    outdatedProvider.Keeps (.steady Nat) ∧ first.1.1.diagnostics = [outdated] ∧
      second.1.1.diagnostics = [] ∧ second.1.1.diagnostics ≠ first.1.1.diagnostics := by
  intro opened first second
  have hfirst : first.1.1.diagnostics = [outdated] := rfl
  have hsecond : second.1.1.diagnostics = [] := rfl
  refine ⟨keeps_outdatedProvider, hfirst, hsecond, ?_⟩
  rw [hfirst, hsecond]
  exact (List.cons_ne_nil outdated []).symm

end Server

end ProviderKit
