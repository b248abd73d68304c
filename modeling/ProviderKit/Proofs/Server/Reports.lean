import ProviderKit.Proofs.Server.Composition
import ProviderKit.Proofs.Server.Retention

-- What callbacks report is not lost. All of it stands in the answer, in the order of the calls and
-- as it was reported, but for comparisons, whose diagnostics are given the path of their attribute
-- if they have none. The calls that are noted are all there were: a provider that writes into a
-- journal whatever its callbacks report finds just that in the journal.

namespace ProviderKit.Server

variable {σ δ α γ ι κ η : Type} {C : Conduct σ} {provider : Provider σ δ} {typeName : String}

/-! ## Frames that pass reports on -/

/-- From one frame to another certain calls were made. What they reported was passed on among
other diagnostics, and stands in any journal that the provider keeps. -/
structure Frame.Conveys (C : Conduct σ) (f g : Frame σ δ) (cs : List (Call δ)) : Prop where
  calls : g.calls = f.calls ++ cs
  conveyed : ∃ ds, g.diagnostics = f.diagnostics ++ ds ∧ (cs.flatMap Call.conveyed).Sublist ds
  journal : ∀ journal, C = .recording journal →
    journal g.world = journal f.world ++ cs.flatMap Call.heard

namespace Frame.Conveys

variable {f g h : Frame σ δ} {cs ds : List (Call δ)}

theorem trans (hfg : f.Conveys C g cs) (hgh : g.Conveys C h ds) : f.Conveys C h (cs ++ ds) := by
  obtain ⟨first, hfirst, hcs⟩ := hfg.conveyed
  obtain ⟨more, hmore, hds⟩ := hgh.conveyed
  refine ⟨?_, ⟨first ++ more, ?_, ?_⟩, fun journal hC => ?_⟩
  · rw [hgh.calls, hfg.calls, List.append_assoc]
  · rw [hmore, hfirst, List.append_assoc]
  · rw [List.flatMap_append]
    exact hcs.append hds
  · rw [hgh.journal journal hC, hfg.journal journal hC, List.append_assoc, List.flatMap_append]

/-- No call was made; the framework may have reported something. -/
theorem quiet (hcalls : g.calls = f.calls) (hdiagnostics : f.diagnostics <+: g.diagnostics)
    (hworld : ∀ journal, C = .recording journal → journal g.world = journal f.world) :
    f.Conveys C g [] := by
  obtain ⟨ds, hds⟩ := hdiagnostics
  refine ⟨hcalls.trans (List.append_nil _).symm, ⟨ds, hds.symm, List.nil_sublist _⟩, ?_⟩
  intro journal hC
  exact (hworld journal hC).trans (List.append_nil _).symm

theorem refl (f : Frame σ δ) : f.Conveys C f [] :=
  quiet rfl (List.prefix_refl _) fun _ _ => rfl

end Frame.Conveys

/-- An action without reports leaves a journal as it was. -/
theorem journal_of_silent {action : StateM σ α} (h : C.Silent action) (world : σ) :
    ∀ journal, C = .recording journal → journal (action world).2 = journal world := by
  rintro journal rfl
  exact (h world).trans (List.append_nil _)

theorem conveys_onShelf {s : Slot σ δ ι κ η} (hs : s.Lawful) {work : Shelf.Work σ ι κ η α}
    {Q : α → Shelf σ ι κ η → Prop} {f : Frame σ δ} (hf : f.Grounded provider typeName)
    (hwork : Shelf.Meets C (Shelf.Grounded (s.source provider typeName)) work Q) :
    f.Conveys C (Rpc.onShelf s work f).2 [] := by
  have hshelf := hs.grounded f.server hf.grounded
  rw [hf.provider, hf.typeName] at hshelf
  exact .quiet rfl (List.prefix_refl _) (journal_of_silent (hwork _ hshelf).1 f.world)

theorem conveys_providerSchema (h : C.Silent provider.declare) {f : Frame σ δ}
    (hf : f.Grounded provider typeName) : f.Conveys C (Rpc.providerSchema f).2 [] := by
  cases hschema : f.server.providerSchema with
  | some schema =>
    rw [Rpc.providerSchema_of_some hschema]
    exact .refl f
  | none =>
    rw [Rpc.providerSchema_of_none hschema, hf.provider]
    have hworld := journal_of_silent h f.world
    split
    · exact .quiet rfl (List.prefix_append _ _) hworld
    · exact .quiet rfl (List.prefix_append _ _) hworld

/-- Every step that is put together so passes on what its calls report. -/
theorem Composed.conveys {Q : α → Prop} {rpc : Rpc σ δ α}
    (h : Composed C provider typeName Q rpc) {f : Frame σ δ}
    (hf : f.Grounded provider typeName) : ∃ cs, f.Conveys C (rpc f).2 cs := by
  induction h generalizing f with
  | pure _ => exact ⟨[], .refl f⟩
  | bind hrpc _ ih ihnext =>
    obtain ⟨hg, hq⟩ := hrpc.grounded hf
    obtain ⟨cs, hcs⟩ := ih hf
    obtain ⟨ds, hds⟩ := ihnext _ hq hg
    exact ⟨cs ++ ds, hcs.trans hds⟩
  | report ds => exact ⟨[], .quiet rfl (List.prefix_append _ _) fun _ _ => rfl⟩
  | ask _ _ ih => exact ih f hf.provider hf
  | act h _ => exact ⟨[], .quiet rfl (List.prefix_refl _) (journal_of_silent h f.world)⟩
  | callAll h hnotes _ =>
    obtain ⟨cs, hrun, hheard, hconveyed⟩ := Rpc.callAll_eq hnotes f
    refine ⟨cs, ?_⟩
    rw [hrun]
    refine ⟨rfl, ⟨_, rfl, hconveyed ▸ List.Sublist.refl _⟩, ?_⟩
    rintro journal rfl
    rw [hheard]
    exact h f.world
  | resolve hs h name =>
    obtain ⟨rfl, rfl, hserver⟩ := hf
    have hshelf := conveys_onShelf hs ⟨rfl, rfl, hserver⟩ (Shelf.meets_resolve h name)
    exact ⟨[], hshelf.trans (.quiet rfl (List.prefix_append _ _) fun _ _ => rfl)⟩
  | listNames hs h =>
    obtain ⟨rfl, rfl, hserver⟩ := hf
    have hshelf := conveys_onShelf hs ⟨rfl, rfl, hserver⟩ (Shelf.meets_listNames h)
    exact ⟨[], hshelf.trans (.quiet rfl (List.prefix_append _ _) fun _ _ => rfl)⟩
  | describeAll hs h =>
    obtain ⟨rfl, rfl, hserver⟩ := hf
    have hshelf := conveys_onShelf hs ⟨rfl, rfl, hserver⟩ (Shelf.meets_describeAll h)
    exact ⟨[], hshelf.trans (.quiet rfl (List.prefix_append _ _) fun _ _ => rfl)⟩
  | providerSchema h => exact ⟨[], conveys_providerSchema h hf⟩
  | share shared => exact ⟨[], .quiet rfl (List.prefix_refl _) fun _ _ => rfl⟩
  | store data => exact ⟨[], .quiet rfl (List.prefix_refl _) fun _ _ => rfl⟩

/-! ## Any answer -/

/-- Whatever a server was asked before, what the callbacks of a request report stands in its answer,
in the order of the calls, as it is passed on. A journal of the provider's world has just that, as
it was reported. -/
theorem answer_conveys_all_reports (provider : Provider σ δ) (options : ServerOptions) (world : σ)
    (past : List Request) (request : Request) :
    let started := Server.start provider options world
    let f := afterRun started.1 started.2 past
    let served := serve f.server request f.world
    (served.1.1.calls.flatMap Call.conveyed).Sublist served.1.1.diagnostics ∧
      ∀ journal : σ → Diagnostics, provider.Keeps (.recording journal) →
        journal served.2 = journal f.world ++ served.1.1.calls.flatMap Call.heard := by
  intro started f served
  have hf : f.Grounded provider started.1.typeName := grounded_afterRun provider options world past
  refine ⟨?_, fun journal hjournal => ?_⟩
  · obtain ⟨cs, hcalls, ⟨ds, hds, hsublist⟩, -⟩ :=
      (composed_serving provider.keeps_any request).conveys hf
    have hcs : served.1.1.calls = cs := hcalls
    have hds : served.1.1.diagnostics = ds := hds
    rw [hcs, hds]
    exact hsublist
  · obtain ⟨cs, hcalls, -, htold⟩ := (composed_serving hjournal request).conveys hf
    have hcs : served.1.1.calls = cs := hcalls
    rw [hcs]
    exact htold journal rfl

/-- Answer and write what is reported into the world. -/
def journalled (reported : α → Diagnostics) (a : α) : StateM Diagnostics α :=
  fun journal => (a, journal ++ reported a)

theorem keeps_journalled (reported : α → Diagnostics) (a : α) :
    (Conduct.recording id).Keeps (journalled reported a) reported := fun _ => rfl

def slowRead : Diagnostic := .warning "Slow Read" "The remote object took its time."

def spelledAlike : Diagnostic := .warning "Spelled Alike" "Only the spelling changed."

/-- A provider of one resource type, whose reads and comparisons of names are journalled. -/
def journallingProvider : Provider Diagnostics Unit where
  metadata := pure ⟨"lone", "1"⟩
  declare := pure ⟨.empty, []⟩
  metaSchema := none
  configure _ := pure (.none, [])
  validateConfig := none
  resources :=
    let alike : SemanticEquality Diagnostics := fun _ _ => journalled (·.2) (true, [spelledAlike])
    pure [pure {
      name := fun provider => pure (provider ++ "_thing")
      declare := pure ⟨⟨0, ⟨[("name", ⟨.string, .requiredOnly, none, none, none,
        ⟨[], some alike⟩⟩)], [], none⟩⟩, []⟩
      configure := none
      actions := { idleActions Diagnostics with
        read := fun r => journalled (·.diagnostics) { r.start with diagnostics := [slowRead] } } }]
  dataSources := pure []
  ephemeralResources := pure []
  functions := pure []
  stateStores := pure []

theorem keeps_journallingProvider : journallingProvider.Keeps (.recording id) where
  metadata := Conduct.silent_pure _
  declare := Conduct.silent_pure _
  configure _ := Conduct.pure _ rfl
  validateConfig _ h := by cases h
  resources := by
    refine ⟨Conduct.silent_pure _, fun _ factory hfactory => ?_⟩
    cases List.mem_singleton.mp hfactory
    refine ⟨Conduct.silent_pure _, fun _ => ?_⟩
    exact {
      name := fun _ => Conduct.silent_pure _
      declare := Conduct.silent_pure _
      schema := fun _ b hb => by
        cases List.mem_singleton.mp hb
        refine ⟨fun _ hm => (by cases hm), fun _ h _ _ => ?_⟩
        cases h
        exact keeps_journalled _ _
      configure := fun _ h => by cases h
      configured := fun _ h => by cases h
      actions := {
        create := fun _ => Conduct.pure _ rfl
        read := fun _ => keeps_journalled _ _
        update := fun _ => Conduct.pure _ rfl
        delete := fun _ => Conduct.pure _ rfl
        modifyPlan := fun _ h => by cases h
        validateConfig := fun _ h => by cases h
        upgraders := fun _ h => by cases h
        importState := fun _ h => by cases h } }
  dataSources := ⟨Conduct.silent_pure _, fun _ _ h => by cases h⟩
  ephemeralResources := ⟨Conduct.silent_pure _, fun _ _ h => by cases h⟩
  functions := ⟨Conduct.silent_pure _, fun _ _ h => by cases h⟩
  stateStores := ⟨Conduct.silent_pure _, fun _ _ h => by cases h⟩

/-- A read of the named thing by this provider. Both warnings are in the journal as they were
given, and the answer tells the one about the name at its path. -/
theorem refresh_conveys_journal :
    let started := Server.start journallingProvider .standard []
    let f := afterRun started.1 started.2 [.getMetadata]
    let served := serve f.server (.readResource (namedRefresh [])) f.world
    journallingProvider.Keeps (.recording id) ∧ served.2 = [slowRead, spelledAlike] ∧
      (served.1.1.calls.flatMap Call.conveyed).Sublist served.1.1.diagnostics ∧
      (served.1.1.diagnostics.map fun d => (d.summary, d.path.map Path.display)) =
        [("Slow Read", none), ("Spelled Alike", some "AttributeName(\"name\")")] := by
  obtain ⟨hconveyed, hjournal⟩ := answer_conveys_all_reports journallingProvider .standard []
    [.getMetadata] (.readResource (namedRefresh []))
  have hwritten := hjournal id keeps_journallingProvider
  exact ⟨keeps_journallingProvider, hwritten.trans rfl, hconveyed, by decide +kernel⟩

end ProviderKit.Server
