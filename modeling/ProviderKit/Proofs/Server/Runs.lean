import Mathlib.Data.List.Induction
import ProviderKit.Proofs.Server.Served

-- Runs of requests. What a server has for its instances after a run is what the last request that
-- configured it with something gave, and every answer of the run hands out what it had by then.

namespace ProviderKit.Server

variable {σ δ α : Type}

/-! ## Where a run leads -/

/-- Where the serving of a request starts. -/
def Frame.opening (server : Server σ δ) (world : σ) : Frame σ δ := ⟨world, server, [], []⟩

/-- Where the serving of the next request starts after a run. -/
def afterRun (server : Server σ δ) (world : σ) (run : List Request) : Frame σ δ :=
  let ran := serveAll server run world
  .opening ran.1.2 ran.2

theorem afterRun_cons (server : Server σ δ) (world : σ) (request : Request)
    (rest : List Request) :
    afterRun server world (request :: rest) =
      let served := serve server request world
      afterRun served.1.2 served.2 rest := rfl

theorem afterRun_append (server : Server σ δ) (world : σ) (past rest : List Request) :
    afterRun server world (past ++ rest) =
      let f := afterRun server world past
      afterRun f.server f.world rest := by
  induction past generalizing server world with
  | nil => rfl
  | cons request past ih =>
    rw [List.cons_append, afterRun_cons, afterRun_cons]
    exact ih _ _

theorem afterRun_snoc (server : Server σ δ) (world : σ) (past : List Request) (request : Request) :
    afterRun server world (past ++ [request]) =
      let g := (serving request (afterRun server world past)).2
      .opening g.server g.world := afterRun_append server world past [request]

/-! ## What was given last -/

/-- What the last request of a run to give anything gave, or else what there was before. -/
def latest (gives : Frame σ δ → Request → Option α) (before : α) (server : Server σ δ) (world : σ) :
    List Request → α
  | [] => before
  | request :: rest =>
    let served := serve server request world
    latest gives ((gives (.opening server world) request).getD before) served.1.2 served.2 rest

theorem latest_snoc (gives : Frame σ δ → Request → Option α) (before : α) (server : Server σ δ)
    (world : σ) (past : List Request) (request : Request) :
    latest gives before server world (past ++ [request]) =
      (gives (afterRun server world past) request).getD
        (latest gives before server world past) := by
  -- What was given along the way is carried as what there was before the rest of the run.
  induction past generalizing before server world with
  | nil => rfl
  | cons first past ih => exact ih _ _ _

/-! ## What a server has after a run -/

theorem afterRun_shared (server : Server σ δ) (world : σ) (run : List Request) :
    (afterRun server world run).server.shared = latest taken? server.shared server world run := by
  induction run using List.reverseRecOn with
  | nil => rfl
  | append_singleton past request ih =>
    rw [afterRun_snoc, latest_snoc, ← ih]
    exact serving_shared request _

theorem afterRun_storeData (server : Server σ δ) (world : σ) (run : List Request) :
    (afterRun server world run).server.storeData =
      latest stored? server.storeData server world run := by
  induction run using List.reverseRecOn with
  | nil => rfl
  | append_singleton past request ih =>
    rw [afterRun_snoc, latest_snoc, ← ih]
    exact serving_storeData request _

theorem afterRun_options (server : Server σ δ) (world : σ) (run : List Request) :
    (afterRun server world run).server.options = server.options := by
  induction run using List.reverseRecOn with
  | nil => rfl
  | append_singleton past request ih =>
    rw [afterRun_snoc, ← ih]
    exact serving_options request _

/-- Every call of an answer is handed what the server had when the request came. -/
theorem answer_hands (server : Server σ δ) (world : σ) (request : Request) :
    ∀ call ∈ (serve server request world).1.1.calls, server.Hands call.callback := by
  obtain ⟨cs, hcalls, hands⟩ := serving_hands request (.opening server world)
  intro call hcall
  have hmem : call ∈ (serving request (.opening server world)).2.calls := hcall
  rw [hcalls] at hmem
  exact hands call hmem

end ProviderKit.Server
