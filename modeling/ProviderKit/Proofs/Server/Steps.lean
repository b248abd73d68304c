import ProviderKit.Proofs.PrivateState.Encoding
import ProviderKit.Server.Rpc

-- What the steps of serving a request do to the frame they run in.

namespace ProviderKit.Server

variable {σ δ α γ : Type}

theorem rpc_bind (rpc : Rpc σ δ α) (next : α → Rpc σ δ γ) (f : Frame σ δ) :
    (rpc >>= next) f = next (rpc f).1 (rpc f).2 := rfl

theorem rpc_get (f : Frame σ δ) : (get : Rpc σ δ (Frame σ δ)) f = (f, f) := rfl

theorem rpc_pure (a : α) (f : Frame σ δ) : (pure a : Rpc σ δ α) f = (a, f) := rfl

namespace Rpc

theorem report_eq (ds : Diagnostics) (f : Frame σ δ) :
    report ds f = ((), { f with diagnostics := f.diagnostics ++ ds }) := rfl

theorem report_nil (f : Frame σ δ) : report [] f = ((), f) := by
  rw [report_eq, List.append_nil]

theorem failed_eq (f : Frame σ δ) : failed f = (Diagnostics.hasError f.diagnostics, f) := rfl

theorem providerMeta_snd (raw : Option Value) (f : Frame σ δ) : (providerMeta raw f).2 = f := rfl

theorem act_eq (action : StateM σ α) (f : Frame σ δ) :
    act action f = ((action f.world).1, { f with world := (action f.world).2 }) := rfl

theorem note_eq (callback : Callback δ) (reported : Diagnostics) (f : Frame σ δ) :
    note callback reported f =
      ((), { f with
        diagnostics := f.diagnostics ++ reported
        calls := f.calls ++ [⟨callback, f.diagnostics, reported⟩] }) := rfl

theorem mem_calls_call (callback : Callback δ) (action : StateM σ α) (reported : α → Diagnostics)
    (f : Frame σ δ) : ⟨callback, f.diagnostics, reported (action f.world).1⟩ ∈
      (call callback action reported f).2.calls := List.mem_append_right _ List.mem_cons_self

theorem noteAll_nil {ι : Type} (callback : ι → Callback δ) (reported : ι → Diagnostics)
    (f : Frame σ δ) : noteAll callback reported [] f = ((), f) := rfl

theorem noteAll_cons {ι : Type} (callback : ι → Callback δ) (reported : ι → Diagnostics) (i : ι)
    (rest : List ι) (f : Frame σ δ) :
    noteAll callback reported (i :: rest) f =
      noteAll callback reported rest (note (callback i) (reported i) f).2 := rfl

/-- Calls that reported nothing are noted, and nothing else happens. -/
theorem noteAll_of_silent {ι : Type} {callback : ι → Callback δ} {reported : ι → Diagnostics}
    {is : List ι} (h : ∀ i ∈ is, reported i = []) (f : Frame σ δ) :
    noteAll callback reported is f =
      ((), { f with calls := f.calls ++ is.map fun i => ⟨callback i, f.diagnostics, []⟩ }) := by
  induction is generalizing f with
  | nil => rw [noteAll_nil, List.map_nil, List.append_nil]
  | cons i rest ih =>
    rw [noteAll_cons, note_eq, h i List.mem_cons_self,
      ih (fun j hj => h j (List.mem_cons_of_mem _ hj))]
    simp only [List.append_nil, List.map_cons, List.append_assoc, List.cons_append,
      List.nil_append]

theorem threadPrivate_same (bytes : Bytes) (s : PrivateState) (f : Frame σ δ) :
    threadPrivate bytes s s f = (bytes, f) := by
  rw [threadPrivate, if_pos rfl]
  rfl

theorem run_eq (rpc : Rpc σ δ α) (server : Server σ δ) (world : σ) :
    run rpc server world =
      (let r := rpc ⟨world, server, [], []⟩
      ((⟨r.1, r.2.diagnostics, r.2.calls⟩, r.2.server), r.2.world)) := rfl

end Rpc

/-- Private state that is decoded without an error leaves the frame alone. -/
theorem decodePrivate_of_not_failed {bytes : Bytes}
    (h : Diagnostics.hasError (PrivateState.decode bytes).2 = false) (f : Frame σ δ) :
    Rpc.decodePrivate bytes f = ((PrivateState.decode bytes).1, f) := by
  unfold Rpc.decodePrivate
  dsimp only
  rw [rpc_bind, PrivateState.decode_silent_of_not_failed h, Rpc.report_nil]
  rfl

/-- Private state that may be stored is encoded without an error. -/
theorem encodePrivate_of_isStorable {s : PrivateState} (h : s.IsStorable) (f : Frame σ δ) :
    Rpc.encodePrivate s f = (s.encode.1, f) := by
  unfold Rpc.encodePrivate
  dsimp only
  rw [rpc_bind, PrivateState.encode_silent h, Rpc.report_nil]
  rfl

end ProviderKit.Server
