import Mathlib.Logic.Relation
import ProviderKit.Proofs.Server.Additions
import ProviderKit.Server.Serve

-- Serving as a sequence of moves. In one move the provider's code acts, something is reported, a
-- call is noted, or the server finds out about declarations. Every request but the two that
-- configure is served by such moves, so what each move keeps is kept by serving.

namespace ProviderKit

variable {σ δ α γ ι κ η : Type}

/-- What there is for an instance of a kind, by what the kind is called. -/
def SharedData.dataFor (shared : SharedData δ) (storeData : Option δ) : String → Option δ
  | "resource" => shared.resource
  | "data source" => shared.dataSource
  | "ephemeral resource" => shared.ephemeralResource
  | "state store" => storeData
  | _ => Option.none

namespace Server

/-! ## Moves -/

/-- The servers differ at most in what they have found out about declarations. -/
structure Agrees (s t : Server σ δ) : Prop where
  provider : t.provider = s.provider
  typeName : t.typeName = s.typeName
  version : t.version = s.version
  options : t.options = s.options
  metaSchema : t.metaSchema = s.metaSchema
  shared : t.shared = s.shared
  storeData : t.storeData = s.storeData

/-- If the callback is handed data, that is what the server has for it. -/
def Hands (s : Server σ δ) : Callback δ → Prop
  | .configureInstance noun _ data => data = s.shared.dataFor s.storeData noun
  | .setUpStore _ r => r.data = s.shared.stateStore
  | _ => True

theorem Agrees.refl (s : Server σ δ) : s.Agrees s := ⟨rfl, rfl, rfl, rfl, rfl, rfl, rfl⟩

theorem Agrees.trans {s t u : Server σ δ} (hst : s.Agrees t) (htu : t.Agrees u) : s.Agrees u where
  provider := htu.provider.trans hst.provider
  typeName := htu.typeName.trans hst.typeName
  version := htu.version.trans hst.version
  options := htu.options.trans hst.options
  metaSchema := htu.metaSchema.trans hst.metaSchema
  shared := htu.shared.trans hst.shared
  storeData := htu.storeData.trans hst.storeData

theorem Agrees.hands {s t : Server σ δ} (h : s.Agrees t) {callback : Callback δ}
    (ht : t.Hands callback) : s.Hands callback := by
  cases callback with
  | configureInstance noun typeName data =>
    have hdata : data = t.shared.dataFor t.storeData noun := ht
    rw [h.shared, h.storeData] at hdata
    exact hdata
  | setUpStore typeName r => exact ht.trans (congrArg SharedData.stateStore h.shared)
  | _ => trivial

namespace Frame

/-- One move in serving a request. -/
inductive Move : Frame σ δ → Frame σ δ → Prop
  | act (f : Frame σ δ) (world : σ) : Move f { f with world := world }
  | report (f : Frame σ δ) (ds : Diagnostics) : Move f { f with diagnostics := f.diagnostics ++ ds }
  | note (f : Frame σ δ) {callback : Callback δ} (h : f.server.Hands callback)
      (reported : Diagnostics) :
      Move f { f with
        diagnostics := f.diagnostics ++ reported
        calls := f.calls ++ [⟨callback, f.diagnostics, reported⟩] }
  | learn (f : Frame σ δ) {server : Server σ δ} (h : f.server.Agrees server) :
      Move f { f with server := server }

def Moves : Frame σ δ → Frame σ δ → Prop := Relation.ReflTransGen Move

theorem Reports.moves {f g : Frame σ δ} (h : f.Reports g) : f.Moves g := by
  obtain ⟨ds, hds⟩ := h.diagnostics
  have hg : g = { f with diagnostics := f.diagnostics ++ ds } := by
    rw [hds, ← h.world, ← h.server, ← h.calls]
  rw [hg]
  exact .single (.report f ds)

/-- Moves leave the server with what it had for instances, and hand just that to callbacks. -/
structure Hands (f g : Frame σ δ) : Prop where
  agrees : f.server.Agrees g.server
  calls : ∃ cs, g.calls = f.calls ++ cs ∧ ∀ c ∈ cs, f.server.Hands c.callback

theorem Move.hands {f g : Frame σ δ} (h : Move f g) : f.Hands g := by
  have hnone : ∃ cs, f.calls = f.calls ++ cs ∧ ∀ c ∈ cs, f.server.Hands c.callback :=
    ⟨[], (List.append_nil _).symm, fun c hc => by cases hc⟩
  cases h with
  | act world => exact ⟨.refl _, hnone⟩
  | report ds => exact ⟨.refl _, hnone⟩
  | note h reported =>
    refine ⟨.refl _, _, rfl, fun c hc => ?_⟩
    rw [List.mem_singleton.mp hc]
    exact h
  | learn h => exact ⟨h, hnone⟩

theorem Moves.hands {f g : Frame σ δ} (h : f.Moves g) : f.Hands g := by
  induction h with
  | refl => exact ⟨.refl _, [], (List.append_nil _).symm, fun c hc => by cases hc⟩
  | tail _ hmove ih =>
    obtain ⟨cs, hg, hcs⟩ := ih.calls
    obtain ⟨ds, hh, hds⟩ := hmove.hands.calls
    refine ⟨ih.agrees.trans hmove.hands.agrees, cs ++ ds, ?_, fun c hc => ?_⟩
    · rw [hh, hg, List.append_assoc]
    · rcases List.mem_append.mp hc with hc | hc
      · exact hcs c hc
      · exact ih.agrees.hands (hds c hc)

end Frame

/-- A slot that finds out about its own kind only, and has for instances of that kind what the
server has for them. -/
structure Slot.Sound (s : Slot σ δ ι κ η) : Prop where
  put : ∀ (server : Server σ δ) (shelf : Shelf σ ι κ η), server.Agrees (s.put server shelf)
  data : ∀ server : Server σ δ, s.data server = server.shared.dataFor server.storeData s.kind.noun

theorem sound_resourceSlot : (resourceSlot : Slot σ δ _ _ _).Sound :=
  ⟨fun _ _ => ⟨rfl, rfl, rfl, rfl, rfl, rfl, rfl⟩, fun _ => rfl⟩

theorem sound_dataSourceSlot : (dataSourceSlot : Slot σ δ _ _ _).Sound :=
  ⟨fun _ _ => ⟨rfl, rfl, rfl, rfl, rfl, rfl, rfl⟩, fun _ => rfl⟩

theorem sound_ephemeralSlot : (ephemeralSlot : Slot σ δ _ _ _).Sound :=
  ⟨fun _ _ => ⟨rfl, rfl, rfl, rfl, rfl, rfl, rfl⟩, fun _ => rfl⟩

theorem sound_functionSlot : (functionSlot : Slot σ δ _ _ _).Sound :=
  ⟨fun _ _ => ⟨rfl, rfl, rfl, rfl, rfl, rfl, rfl⟩, fun _ => rfl⟩

theorem sound_stateStoreSlot : (stateStoreSlot : Slot σ δ _ _ _).Sound :=
  ⟨fun _ _ => ⟨rfl, rfl, rfl, rfl, rfl, rfl, rfl⟩, fun _ => rfl⟩

/-! ## Steps that are moves -/

namespace Rpc

/-- The step is a sequence of moves. -/
def Moves (rpc : Rpc σ δ α) : Prop := ∀ f : Frame σ δ, f.Moves (rpc f).2

variable {rpc : Rpc σ δ α} {next : α → Rpc σ δ γ}

theorem Moves.bind (h : Moves rpc) (hnext : ∀ a, Moves (next a)) : Moves (rpc >>= next) :=
  fun f => (h f).trans (hnext _ _)

theorem Moves.ite {c : Prop} [Decidable c] {rpc' : Rpc σ δ α} (h : Moves rpc) (h' : Moves rpc') :
    Moves (if c then rpc else rpc') := by
  split
  · exact h
  · exact h'

/-- A step that may come back empty. -/
theorem Moves.bind_option {rpc : Rpc σ δ (Option α)} {next : Option α → Rpc σ δ γ}
    (h : Moves rpc) (hnone : Moves (next none)) (hsome : ∀ a, Moves (next (some a))) :
    Moves (rpc >>= next) := by
  refine h.bind fun found => ?_
  cases found with
  | none => exact hnone
  | some a => exact hsome a

theorem moves_pure (a : α) : Moves (pure a : Rpc σ δ α) := fun _ => .refl

theorem moves_get : Moves (get : Rpc σ δ (Frame σ δ)) := fun _ => .refl

theorem moves_act (action : StateM σ α) : Moves (act action : Rpc σ δ α) :=
  fun f => .single (.act f _)

theorem OnlyReports.moves (h : OnlyReports rpc) : Moves rpc := fun f => (h f).moves

theorem moves_report (ds : Diagnostics) : Moves (report ds : Rpc σ δ Unit) :=
  (onlyReports_report ds).moves

/-- What follows only if nothing has failed. -/
theorem moves_unless_failed (a : α) (h : Moves rpc) :
    Moves
      (do
        if ← failed then return a
        rpc : Rpc σ δ α) :=
  moves_get.bind fun _ => (moves_pure a).ite h

theorem call_moves {callback : Callback δ} {f : Frame σ δ} (h : f.server.Hands callback)
    (action : StateM σ α) (reported : α → Diagnostics) :
    f.Moves (call callback action reported f).2 :=
  .tail (.single (.act f (action f.world).2)) (.note { f with world := (action f.world).2 } h _)

theorem moves_call {callback : Callback δ} (h : ∀ server : Server σ δ, server.Hands callback)
    (action : StateM σ α) (reported : α → Diagnostics) :
    Moves (call callback action reported : Rpc σ δ α) := fun f => call_moves (h f.server) _ _

theorem moves_noteAll {callback : ι → Callback δ}
    (h : ∀ (server : Server σ δ) (i : ι), server.Hands (callback i)) (reported : ι → Diagnostics)
    (is : List ι) : Moves (noteAll callback reported is : Rpc σ δ Unit) := by
  induction is with
  | nil => exact moves_pure ()
  | cons i rest ih => exact Moves.bind (fun f => .single (.note f (h _ i) _)) fun _ => ih

/-! ## Declarations and instances -/

theorem moves_onShelf {s : Slot σ δ ι κ η} (hs : s.Sound) (work : Shelf.Work σ ι κ η α) :
    Moves (onShelf s work : Rpc σ δ α) := by
  intro f
  exact .tail (.single (.act f _)) (.learn _ (hs.put f.server _))

theorem moves_resolve {s : Slot σ δ ι κ η} (hs : s.Sound) (name : String) :
    Moves (resolve s name : Rpc σ δ (Option (Entry σ ι κ × η))) :=
  moves_get.bind fun _ => (moves_onShelf hs _).bind fun _ =>
    (moves_report _).bind fun _ => moves_pure _

theorem moves_listNames {s : Slot σ δ ι κ η} (hs : s.Sound) :
    Moves (listNames s : Rpc σ δ (List String)) :=
  moves_get.bind fun _ => (moves_onShelf hs _).bind fun _ =>
    (moves_report _).bind fun _ => moves_pure _

theorem moves_describeAll {s : Slot σ δ ι κ η} (hs : s.Sound) :
    Moves (describeAll s : Rpc σ δ (Keyed η)) :=
  moves_get.bind fun _ => (moves_onShelf hs _).bind fun _ =>
    (moves_report _).bind fun _ => moves_pure _

theorem moves_providerSchema : Moves (providerSchema : Rpc σ δ (Option PlainSchema)) := by
  refine moves_get.bind fun f => ?_
  dsimp only
  split
  · exact moves_pure _
  · refine (moves_act _).bind fun declared => (moves_report _).bind fun _ => (moves_pure _).ite ?_
    refine Moves.bind (fun g => ?_) fun _ => moves_pure _
    exact .single (.learn g ⟨rfl, rfl, rfl, rfl, rfl, rfl, rfl⟩)

/-- An instance is handed the data that the server has for its kind by then. -/
theorem moves_instantiate {s : Slot σ δ (DeclaredType σ δ α) κ η} (hs : s.Sound) (typeName : String)
    (takesData : Bool) (factory : Factory σ (DeclaredType σ δ α)) :
    Moves (instantiate s typeName takesData factory : Rpc σ δ α) := by
  intro f
  unfold instantiate
  rw [rpc_bind, rpc_get, rpc_bind, act_eq]
  dsimp only
  have hfactory : f.Moves { f with world := (factory f.world).2 } := .single (.act f _)
  have hands : f.server.Hands (.configureInstance s.kind.noun typeName (s.data f.server)) :=
    hs.data f.server
  cases onlyIf takesData (factory f.world).1.configure with
  | none => exact hfactory
  | some configure =>
    exact hfactory.trans (call_moves (f := { f with world := (factory f.world).2 }) hands _ _)

theorem moves_fresh {s : Slot σ δ (DeclaredType σ δ α) κ η} (hs : s.Sound) (takesData : κ → Bool)
    (within : α → κ → α) (typeName : String) :
    Moves (fresh s takesData within typeName : Rpc σ δ (Option (α × η))) :=
  (moves_resolve hs typeName).bind_option (moves_pure _) fun _ =>
    (moves_instantiate hs typeName _ _).bind fun _ => moves_pure _

end Rpc

end Server

end ProviderKit
