import ProviderKit.Proofs.Plan.Traversal
import ProviderKit.Proofs.Reconcile.Conducted
import ProviderKit.Proofs.Server.Shelves

-- Serving as a program. A step of serving is put together from a few ways to deal with the frame:
-- reporting, weighing what was reported, asking the server, calling the provider's code, looking
-- up what it declares, and keeping what it was configured with. What each of these does, every
-- request does.

namespace ProviderKit

/-- There is an error exactly if there is one among the errors. -/
theorem Diagnostics.hasError_eq_errors (ds : Diagnostics) :
    hasError ds = ds.errors.any Diagnostic.isError := by
  rw [errors, hasError, List.any_filter]
  simp

namespace Server

variable {σ δ α γ ι κ η : Type}

/-! ## Calls and what they reported -/

/-- What the callback itself reported. -/
def Call.heard (c : Call δ) : Diagnostics :=
  match c.callback with
  | .compareValues comparison => comparison.reported
  | _ => c.reported

/-- How a diagnostic of the callback is passed on: comparisons are told where they were made. -/
def Callback.place : Callback δ → Diagnostic → Diagnostic
  | .compareValues comparison => (·.orAtPath comparison.path)
  | _ => id

/-- What the callback reported as it is passed on. -/
def Call.conveyed (c : Call δ) : Diagnostics := c.heard.map c.callback.place

/-- When the callback says something, it is noted as it is passed on. -/
structure Callback.Notes (callback : Callback δ) (said noted : Diagnostics) : Prop where
  heard : ∀ before, Call.heard ⟨callback, before, noted⟩ = said
  conveyed : noted = said.map callback.place

/-- The comparison that was made, if the callback is one. -/
def Callback.comparison? : Callback δ → Option EqualityCall
  | .compareValues comparison => some comparison
  | _ => none

/-- Every callback but comparisons is noted with what it says. -/
theorem Callback.notes_of_plain {callback : Callback δ} (h : callback.comparison? = none)
    (said : Diagnostics) : callback.Notes said said := by
  cases callback with
  | compareValues comparison => cases h
  | _ => exact ⟨fun _ => rfl, (List.map_id said).symm⟩

theorem notes_compareValues (comparison : EqualityCall) :
    (Callback.compareValues comparison : Callback δ).Notes comparison.reported
      comparison.diagnostics := ⟨fun _ => rfl, rfl⟩

/-! ## Composed steps -/

/-- The step is put together from what a request may do, on a server of this provider whose code
keeps a conduct. Its answer satisfies `Q`. -/
inductive Composed (C : Conduct σ) (provider : Provider σ δ) (typeName : String) :
    {α : Type} → (α → Prop) → Rpc σ δ α → Prop
  | pure {α : Type} {Q : α → Prop} {a : α} (h : Q a) : Composed C provider typeName Q (pure a)
  | bind {α γ : Type} {Q : α → Prop} {R : γ → Prop} {rpc : Rpc σ δ α} {next : α → Rpc σ δ γ}
      (h : Composed C provider typeName Q rpc)
      (hnext : ∀ a, Q a → Composed C provider typeName R (next a)) :
      Composed C provider typeName R (rpc >>= next)
  | report (ds : Diagnostics) : Composed C provider typeName (fun _ => True) (Rpc.report ds)
  /-- How it goes on may depend on what the server was configured with, and on the errors so far;
  not on warnings, nor on what the server found out about declarations. -/
  | ask {α : Type} {Q : α → Prop} {next : Frame σ δ → Rpc σ δ α}
      (h : ∀ f g : Frame σ δ, f.server.Agrees g.server →
        g.diagnostics.errors = f.diagnostics.errors → next g = next f)
      (hnext : ∀ f : Frame σ δ, f.server.provider = provider →
        Composed C provider typeName Q (next f)) :
      Composed C provider typeName Q (get >>= next)
  | act {α : Type} {Q : α → Prop} {action : StateM σ α} (h : C.Silent action)
      (hQ : ∀ world, Q (action world).1) : Composed C provider typeName Q (Rpc.act action)
  /-- Callbacks run one after the other, and each is noted with what it says. -/
  | callAll {α β : Type} {Q : α → Prop} {action : StateM σ α} {runs : α → List β}
      {callback : β → Callback δ} {said noted : β → Diagnostics}
      (h : C.Keeps action fun a => (runs a).flatMap said)
      (hnotes : ∀ b, (callback b).Notes (said b) (noted b)) (hQ : ∀ world, Q (action world).1) :
      Composed C provider typeName Q (do
        let a ← Rpc.act action
        Rpc.noteAll callback noted (runs a)
        return a)
  | resolve {ι κ η : Type} {s : Slot σ δ ι κ η} (hs : s.Lawful) {Good : ι → Prop}
      (h : (s.source provider typeName).Keeps C Good) (name : String) :
      Composed C provider typeName (fun found => ∀ entry description,
        found = some (entry, description) →
          (s.source provider typeName).Offers name entry description) (Rpc.resolve s name)
  | listNames {ι κ η : Type} {s : Slot σ δ ι κ η} (hs : s.Lawful) {Good : ι → Prop}
      (h : (s.source provider typeName).Keeps C Good) :
      Composed C provider typeName (fun _ => True) (Rpc.listNames s)
  | describeAll {ι κ η : Type} {s : Slot σ δ ι κ η} (hs : s.Lawful) {Good : ι → Prop}
      (h : (s.source provider typeName).Keeps C Good) :
      Composed C provider typeName (fun _ => True) (Rpc.describeAll s)
  | providerSchema (h : C.Silent provider.declare) :
      Composed C provider typeName (fun _ => True) Rpc.providerSchema
  | share (shared : SharedData δ) :
      Composed C provider typeName (fun _ => True)
        (modify fun f => { f with server := { f.server with shared := shared } })
  | store (data : Option δ) :
      Composed C provider typeName (fun _ => True)
        (modify fun f => { f with server := { f.server with storeData := data } })

namespace Composed

variable {C : Conduct σ} {provider : Provider σ δ} {typeName : String}
  {Q : α → Prop} {R : γ → Prop} {rpc : Rpc σ δ α} {next : α → Rpc σ δ γ}

theorem mono {Q' : α → Prop} (h : Composed C provider typeName Q rpc) (hQ : ∀ a, Q a → Q' a) :
    Composed C provider typeName Q' rpc := h.bind fun a ha => .pure (hQ a ha)

theorem ite {c : Prop} [Decidable c] {rpc' : Rpc σ δ α} (h : Composed C provider typeName Q rpc)
    (h' : Composed C provider typeName Q rpc') :
    Composed C provider typeName Q (if c then rpc else rpc') := by
  split
  · exact h
  · exact h'

/-- Going on after a step about whose answer nothing has to be known. -/
theorem andThen (h : Composed C provider typeName (fun _ => True) rpc)
    (hnext : ∀ a, Composed C provider typeName R (next a)) :
    Composed C provider typeName R (rpc >>= next) := h.bind fun a _ => hnext a

/-- A step that may come back empty. -/
theorem bind_option {rpc : Rpc σ δ (Option α)} {next : Option α → Rpc σ δ γ}
    (h : Composed C provider typeName (fun found => ∀ a, found = some a → Q a) rpc)
    (hnone : Composed C provider typeName R (next none))
    (hsome : ∀ a, Q a → Composed C provider typeName R (next (some a))) :
    Composed C provider typeName R (rpc >>= next) := by
  refine h.bind fun found hfound => ?_
  cases found with
  | none => exact hnone
  | some a => exact hsome a (hfound a rfl)

/-- Reporting and then going on with what is known. -/
theorem report_pure (ds : Diagnostics) {a : α} (h : Q a) :
    Composed C provider typeName Q (Rpc.report ds >>= fun _ => Pure.pure a) :=
  (Composed.report ds).andThen fun _ => .pure h

theorem failed : Composed C provider typeName (fun _ => True) Rpc.failed := by
  refine .ask (fun f g _ herrors => ?_) fun f _ => .pure trivial
  rw [Diagnostics.hasError_eq_errors, herrors, ← Diagnostics.hasError_eq_errors]

/-- What follows only if nothing has failed. -/
theorem unless_failed {a : α} (ha : Q a) (h : Composed C provider typeName Q rpc) :
    Composed C provider typeName Q (do
      if ← Rpc.failed then return a
      rpc) := failed.andThen fun _ => (Composed.pure ha).ite h

/-- A callback is called. -/
theorem call {callback : Callback δ} {action : StateM σ α} {reported : α → Diagnostics}
    (hplain : callback.comparison? = none) (h : C.Keeps action reported)
    (hQ : ∀ world, Q (action world).1) :
    Composed C provider typeName Q (Rpc.call callback action reported) := by
  have hkeeps : C.Keeps action fun a => [a].flatMap reported := by
    simpa only [List.flatMap_singleton] using h
  exact Composed.callAll hkeeps (fun a => Callback.notes_of_plain hplain (reported a)) hQ

/-- A callback is called, and its answer may be anything. -/
theorem call_andThen {callback : Callback δ} {action : StateM σ α} {reported : α → Diagnostics}
    (hplain : callback.comparison? = none) (h : C.Keeps action reported)
    (hnext : ∀ a, Composed C provider typeName R (next a)) :
    Composed C provider typeName R (Rpc.call callback action reported >>= next) :=
  (call hplain h fun _ => trivial).andThen hnext

end Composed

/-! ## What composed steps keep -/

/-- The frame is about this provider, and what its server keeps comes from there. -/
structure Frame.Grounded (provider : Provider σ δ) (typeName : String) (f : Frame σ δ) : Prop where
  provider : f.server.provider = provider
  typeName : f.server.typeName = typeName
  grounded : f.server.Grounded

section

variable {C : Conduct σ} {provider : Provider σ δ} {typeName : String}

/-- Calls are noted with what they say, and nothing else happens. -/
theorem Rpc.noteAll_notes {callback : α → Callback δ} {said noted : α → Diagnostics}
    (h : ∀ a, (callback a).Notes (said a) (noted a)) (as : List α) (f : Frame σ δ) :
    ∃ cs, noteAll callback noted as f = ((), { f with
        diagnostics := f.diagnostics ++ as.flatMap noted
        calls := f.calls ++ cs }) ∧
      cs.flatMap Call.heard = as.flatMap said ∧ cs.flatMap Call.conveyed = as.flatMap noted := by
  induction as generalizing f with
  | nil =>
    refine ⟨[], ?_, rfl, rfl⟩
    rw [noteAll_nil, List.flatMap_nil, List.append_nil, List.append_nil]
  | cons a rest ih =>
    let c : Call δ := ⟨callback a, f.diagnostics, noted a⟩
    obtain ⟨cs, hrun, hheard, hconveyed⟩ := ih (note (callback a) (noted a) f).2
    have hc : c.heard = said a := (h a).heard _
    refine ⟨c :: cs, ?_, ?_, ?_⟩
    · rw [noteAll_cons, hrun, note_eq, List.flatMap_cons, List.append_assoc, List.append_assoc]
      rfl
    · rw [List.flatMap_cons, List.flatMap_cons, hheard, hc]
    · rw [List.flatMap_cons, List.flatMap_cons, hconveyed, Call.conveyed, hc, ← (h a).conveyed]

/-- The provider's code acts, and then all calls that it made are noted. -/
theorem Rpc.callAll_eq {action : StateM σ γ} {runs : γ → List α} {callback : α → Callback δ}
    {said noted : α → Diagnostics} (h : ∀ a, (callback a).Notes (said a) (noted a))
    (f : Frame σ δ) :
    let done := action f.world
    ∃ cs, (do
        let c ← act action
        noteAll callback noted (runs c)
        return c : Rpc σ δ γ) f = (done.1, { f with
          world := done.2
          diagnostics := f.diagnostics ++ (runs done.1).flatMap noted
          calls := f.calls ++ cs }) ∧
      cs.flatMap Call.heard = (runs done.1).flatMap said ∧
      cs.flatMap Call.conveyed = (runs done.1).flatMap noted := by
  intro done
  obtain ⟨cs, hrun, hheard, hconveyed⟩ :=
    noteAll_notes h (runs done.1) { f with world := done.2 }
  refine ⟨cs, ?_, hheard, hconveyed⟩
  rw [rpc_bind, act_eq, rpc_bind, hrun, rpc_pure]

theorem Frame.Grounded.of_server {f g : Frame σ δ} (h : f.Grounded provider typeName)
    (hserver : g.server = f.server) : g.Grounded provider typeName :=
  ⟨hserver ▸ h.provider, hserver ▸ h.typeName, hserver ▸ h.grounded⟩

/-- Work on the shelf of a slot leaves the other shelves alone. -/
theorem Frame.Grounded.onShelf {s : Slot σ δ ι κ η} (hs : s.Lawful) {work : Shelf.Work σ ι κ η α}
    {Q : α → Shelf σ ι κ η → Prop} {f : Frame σ δ} (hf : f.Grounded provider typeName)
    (hwork : Shelf.Meets C (Shelf.Grounded (s.source provider typeName)) work Q)
    (hQ : ∀ a shelf, Q a shelf → shelf.Grounded (s.source provider typeName)) :
    (Rpc.onShelf s work f).2.Grounded provider typeName ∧
      ∃ shelf, Q (Rpc.onShelf s work f).1 shelf := by
  have hshelf := hs.grounded f.server hf.grounded
  rw [hf.provider, hf.typeName] at hshelf
  have hq := (hwork _ hshelf).2 f.world
  have hagrees := hs.put f.server (work (s.shelf f.server) f.world).1.2
  refine ⟨⟨hagrees.provider.trans hf.provider, hagrees.typeName.trans hf.typeName, ?_⟩, _, hq⟩
  refine hs.put_grounded f.server _ hf.grounded ?_
  rw [hf.provider, hf.typeName]
  exact hQ _ _ hq

theorem Frame.Grounded.resolve {s : Slot σ δ ι κ η} (hs : s.Lawful) {Good : ι → Prop}
    (h : (s.source provider typeName).Keeps C Good) (name : String) {f : Frame σ δ}
    (hf : f.Grounded provider typeName) :
    (Rpc.resolve s name f).2.Grounded provider typeName ∧ ∀ entry description,
      (Rpc.resolve s name f).1 = some (entry, description) →
        (s.source provider typeName).Offers name entry description := by
  obtain ⟨rfl, rfl, hserver⟩ := hf
  obtain ⟨hg, _, -, hoffers⟩ := Frame.Grounded.onShelf hs ⟨rfl, rfl, hserver⟩
    (Shelf.meets_resolve h name) fun _ _ hq => hq.1
  exact ⟨hg.of_server rfl, hoffers⟩

theorem Frame.Grounded.listNames {s : Slot σ δ ι κ η} (hs : s.Lawful) {Good : ι → Prop}
    (h : (s.source provider typeName).Keeps C Good) {f : Frame σ δ}
    (hf : f.Grounded provider typeName) : (Rpc.listNames s f).2.Grounded provider typeName := by
  obtain ⟨rfl, rfl, hserver⟩ := hf
  obtain ⟨hg, -⟩ := Frame.Grounded.onShelf hs ⟨rfl, rfl, hserver⟩ (Shelf.meets_listNames h)
    fun _ _ hq => hq
  exact hg.of_server rfl

theorem Frame.Grounded.describeAll {s : Slot σ δ ι κ η} (hs : s.Lawful) {Good : ι → Prop}
    (h : (s.source provider typeName).Keeps C Good) {f : Frame σ δ}
    (hf : f.Grounded provider typeName) : (Rpc.describeAll s f).2.Grounded provider typeName := by
  obtain ⟨rfl, rfl, hserver⟩ := hf
  obtain ⟨hg, -⟩ := Frame.Grounded.onShelf hs ⟨rfl, rfl, hserver⟩ (Shelf.meets_describeAll h)
    fun _ _ hq => hq
  exact hg.of_server rfl

theorem Rpc.providerSchema_of_some {f : Frame σ δ} {schema : PlainSchema}
    (h : f.server.providerSchema = some schema) : Rpc.providerSchema f = (some schema, f) := by
  rw [Rpc.providerSchema, rpc_bind, rpc_get]
  dsimp only
  rw [h]
  rfl

/-- The provider declares its schema, which is kept unless it has errors. -/
theorem Rpc.providerSchema_of_none {f : Frame σ δ} (h : f.server.providerSchema = none) :
    let done := f.server.provider.declare f.world
    let schema := done.1.schema.plain
    let g : Frame σ δ :=
      { f with world := done.2, diagnostics := f.diagnostics ++ done.1.diagnostics }
    Rpc.providerSchema f =
      if Diagnostics.hasError done.1.diagnostics then (none, g)
      else (some schema, { g with server := { f.server with providerSchema := some schema } }) := by
  rw [Rpc.providerSchema, rpc_bind, rpc_get]
  dsimp only
  rw [h]
  dsimp only
  rw [rpc_bind, Rpc.act_eq, rpc_bind, Rpc.report_eq]
  dsimp only
  split
  · rfl
  · rfl

theorem Frame.Grounded.providerSchema {f : Frame σ δ} (hf : f.Grounded provider typeName) :
    (Rpc.providerSchema f).2.Grounded provider typeName := by
  cases hschema : f.server.providerSchema with
  | some schema =>
    rw [Rpc.providerSchema_of_some hschema]
    exact hf
  | none =>
    rw [Rpc.providerSchema_of_none hschema]
    split
    · exact hf.of_server rfl
    · next hok =>
      refine ⟨hf.provider, hf.typeName, { hf.grounded with providerSchema := ?_ }⟩
      rintro _ ⟨⟩
      exact ⟨f.world, rfl, Bool.eq_false_iff.mpr hok⟩

/-- Every step that is put together so keeps what the server knows well founded. -/
theorem Composed.grounded {Q : α → Prop} {rpc : Rpc σ δ α}
    (h : Composed C provider typeName Q rpc) {f : Frame σ δ}
    (hf : f.Grounded provider typeName) : (rpc f).2.Grounded provider typeName ∧ Q (rpc f).1 := by
  induction h generalizing f with
  | pure h => exact ⟨hf, h⟩
  | bind _ _ ih ihnext =>
    obtain ⟨hg, hq⟩ := ih hf
    exact ihnext _ hq hg
  | report ds => exact ⟨hf.of_server rfl, trivial⟩
  | ask _ _ ih => exact ih f hf.provider hf
  | act _ hQ => exact ⟨hf.of_server rfl, hQ _⟩
  | callAll _ hnotes hQ =>
    obtain ⟨cs, hrun, -⟩ := Rpc.callAll_eq hnotes f
    rw [hrun]
    exact ⟨hf.of_server rfl, hQ _⟩
  | resolve hs h name => exact hf.resolve hs h name
  | listNames hs h => exact ⟨hf.listNames hs h, trivial⟩
  | describeAll hs h => exact ⟨hf.describeAll hs h, trivial⟩
  | providerSchema => exact ⟨hf.providerSchema, trivial⟩
  | share shared => exact ⟨⟨hf.provider, hf.typeName, { hf.grounded with }⟩, trivial⟩
  | store data => exact ⟨⟨hf.provider, hf.typeName, { hf.grounded with }⟩, trivial⟩

end

end Server

end ProviderKit
