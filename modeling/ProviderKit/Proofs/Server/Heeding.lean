import ProviderKit.Proofs.Server.Readiness

-- Calls that heed errors: one operation at most, made while nothing that was reported is an error.
-- What prepares, checks or compares may run before and after it. A step may operate once it has
-- asked whether anything failed, or was given what there is only if nothing did.

namespace ProviderKit

variable {σ δ α γ ι κ η : Type}

/-! ## Looking up what is declared -/

/-- What is found is found without an error. -/
theorem Shelf.gives_resolve_unfailed (k : Kind σ ι κ η) (providerName : String)
    (declarations : StateM σ (List (Factory σ ι))) (name : String) :
    Gives (fun answer => ∀ found, answer.1 = some found → Diagnostics.hasError answer.2 = false)
      (resolve k providerName declarations name) := by
  refine gives_bind fun c => ?_
  split
  · exact gives_pure fun found hfound => by cases hfound
  · refine gives_bind fun described => ?_
    dsimp only
    split
    · exact gives_pure fun found hfound => by cases hfound
    · refine gives_pure fun found hfound => ?_
      dsimp only at hfound ⊢
      split at hfound
      · cases hfound
      · next hok => exact Bool.eq_false_iff.mpr hok

namespace Server

/-! ## Calls that heed errors -/

/-- The calls that carry something out. -/
def operations (calls : List (Call δ)) : List (Call δ) :=
  calls.filter fun c => c.callback.isOperation

/-- One operation at most was called, and no error had been reported before it. -/
structure Heedful (calls : List (Call δ)) : Prop where
  once : (operations calls).length ≤ 1
  unfailed : ∀ c ∈ operations calls, Diagnostics.hasError c.before = false

theorem operations_append (a b : List (Call δ)) :
    operations (a ++ b) = operations a ++ operations b := List.filter_append a b

theorem operations_of_aside {calls : List (Call δ)} (h : ∀ c ∈ calls, c.callback.IsAside) :
    operations calls = [] := by
  refine List.filter_eq_nil_iff.mpr fun c hc => ?_
  rw [h c hc]
  exact Bool.false_ne_true

theorem Heedful.of_operations_eq {a b : List (Call δ)} (ha : Heedful a)
    (h : operations b = operations a) : Heedful b := by
  refine ⟨?_, ?_⟩
  · rw [h]
    exact ha.once
  · rw [h]
    exact ha.unfailed

theorem heedful_of_aside {calls : List (Call δ)} (h : ∀ c ∈ calls, c.callback.IsAside) :
    Heedful calls := by
  have hnone := operations_of_aside h
  refine ⟨?_, ?_⟩
  · rw [hnone]
    exact Nat.zero_le 1
  · rw [hnone]
    intro c hc
    cases hc

theorem heedful_singleton {c : Call δ} (h : Diagnostics.hasError c.before = false) :
    Heedful [c] := by
  refine ⟨List.length_filter_le _ [c], fun d hd => ?_⟩
  rw [List.mem_singleton.mp (List.mem_filter.mp hd).1]
  exact h

/-- From one frame to another, diagnostics were added, and calls that heed errors. -/
structure Frame.Heeds (f g : Frame σ δ) : Prop where
  diagnostics : f.diagnostics <+: g.diagnostics
  calls : ∃ cs, g.calls = f.calls ++ cs ∧ Heedful cs

namespace Frame

variable {f g h : Frame σ δ}

theorem Adds.heeds (hfg : f.Adds Callback.IsAside g) : f.Heeds g := by
  obtain ⟨cs, hg, hcs⟩ := hfg.calls
  exact ⟨hfg.diagnostics, cs, hg, heedful_of_aside hcs⟩

/-- What is no operation may come before one. -/
theorem Adds.trans_heeds (hfg : f.Adds Callback.IsAside g) (hgh : g.Heeds h) : f.Heeds h := by
  obtain ⟨cs, hg, hcs⟩ := hfg.calls
  obtain ⟨ds, hh, hds⟩ := hgh.calls
  refine ⟨hfg.diagnostics.trans hgh.diagnostics, cs ++ ds, ?_, hds.of_operations_eq ?_⟩
  · rw [hh, hg, List.append_assoc]
  · rw [operations_append, operations_of_aside hcs, List.nil_append]

/-- And after one. -/
theorem Heeds.trans_adds (hfg : f.Heeds g) (hgh : g.Adds Callback.IsAside h) : f.Heeds h := by
  obtain ⟨cs, hg, hcs⟩ := hfg.calls
  obtain ⟨ds, hh, hds⟩ := hgh.calls
  refine ⟨hfg.diagnostics.trans hgh.diagnostics, cs ++ ds, ?_, hcs.of_operations_eq ?_⟩
  · rw [hh, hg, List.append_assoc]
  · rw [operations_append, operations_of_aside hds, List.append_nil]

end Frame

/-! ## Steps that heed errors -/

namespace Rpc

/-- Wherever the step starts, its calls heed errors. -/
def Heeds (rpc : Rpc σ δ α) : Prop := ∀ f : Frame σ δ, f.Heeds (rpc f).2

/-- If no error was reported before the step, its calls heed errors. -/
def HeedsUnfailed (rpc : Rpc σ δ α) : Prop :=
  ∀ f : Frame σ δ, Diagnostics.hasError f.diagnostics = false → f.Heeds (rpc f).2

/-- The step gives something only where no error was reported by its end. -/
def Ready (rpc : Rpc σ δ (Option α)) : Prop :=
  ∀ f a, (rpc f).1 = some a → Diagnostics.hasError (rpc f).2.diagnostics = false

variable {rpc : Rpc σ δ α} {next : α → Rpc σ δ γ}

theorem Adds.heeds (h : Adds Callback.IsAside rpc) : Heeds rpc := fun f => (h f).heeds

theorem Heeds.unfailed (h : Heeds rpc) : HeedsUnfailed rpc := fun f _ => h f

theorem Adds.bind_heeds (h : Adds Callback.IsAside rpc) (hnext : ∀ a, Heeds (next a)) :
    Heeds (rpc >>= next) := fun f => (h f).trans_heeds (hnext _ _)

theorem Heeds.bind_adds (h : Heeds rpc) (hnext : ∀ a, Adds Callback.IsAside (next a)) :
    Heeds (rpc >>= next) := fun f => (h f).trans_adds (hnext _ _)

theorem HeedsUnfailed.bind_adds (h : HeedsUnfailed rpc)
    (hnext : ∀ a, Adds Callback.IsAside (next a)) : HeedsUnfailed (rpc >>= next) :=
  fun f hf => (h f hf).trans_adds (hnext _ _)

/-- A step that reports nothing leaves the next one as free to operate. -/
theorem Silent.bind_heedsUnfailed (h : Silent rpc) (hnext : ∀ a, HeedsUnfailed (next a)) :
    HeedsUnfailed (rpc >>= next) := by
  intro f hf
  rw [rpc_bind]
  refine (h.adds f).trans_heeds (hnext _ _ ?_)
  rw [(h f).1]
  exact hf

/-- Any callback may be called while nothing has failed. -/
theorem heedsUnfailed_call (callback : Callback δ) (action : StateM σ α)
    (reported : α → Diagnostics) : HeedsUnfailed (call callback action reported : Rpc σ δ α) :=
  fun f hf => ⟨List.prefix_append _ _, [⟨callback, f.diagnostics, _⟩], rfl, heedful_singleton hf⟩

/-- Errors are heeded by asking for them. -/
theorem heeds_failed_bind {next : Bool → Rpc σ δ γ} (hfailed : Adds Callback.IsAside (next true))
    (hnext : HeedsUnfailed (next false)) : Heeds (failed >>= next) := by
  intro f
  rw [rpc_bind, failed_eq]
  cases hf : Diagnostics.hasError f.diagnostics with
  | true => exact (hfailed f).heeds
  | false => exact hnext f hf

/-! ## What operations need -/

theorem ready_none : Ready (pure none : Rpc σ δ (Option α)) := by
  intro f a ha
  cases ha

theorem ready_bind {next : α → Rpc σ δ (Option γ)} (hnext : ∀ a, Ready (next a)) :
    Ready (rpc >>= next) := fun _ c hc => hnext _ _ c hc

theorem ready_unless_failed (a : α) :
    Ready
      (do
        if ← failed then return none
        return some a : Rpc σ δ (Option α)) := by
  intro f b hb
  rw [rpc_bind, failed_eq] at hb ⊢
  cases hf : Diagnostics.hasError f.diagnostics with
  | true =>
    rw [hf] at hb
    cases hb
  | false => exact hf

/-- Errors are also heeded by going on only with what was given without one. -/
theorem Ready.bind_heeds {rpc : Rpc σ δ (Option α)} {next : Option α → Rpc σ δ γ} (h : Ready rpc)
    (hadds : Adds Callback.IsAside rpc) (hnone : Adds Callback.IsAside (next none))
    (hsome : ∀ a, HeedsUnfailed (next (some a))) : Heeds (rpc >>= next) := by
  intro f
  rw [rpc_bind]
  refine (hadds f).trans_heeds ?_
  cases hfound : (rpc f).1 with
  | none => exact (hnone _).heeds
  | some a => exact hsome a _ (h f a hfound)

/-- So does looking a declaration up, unless something had failed before. -/
theorem heedsUnfailed_resolve_bind (s : Slot σ δ ι κ η) (name : String)
    {next : Option (Entry σ ι κ × η) → Rpc σ δ γ} (hnone : Adds Callback.IsAside (next none))
    (hsome : ∀ entry description, HeedsUnfailed (next (some (entry, description)))) :
    HeedsUnfailed (resolve s name >>= next) := by
  intro f hf
  rw [rpc_bind]
  refine (adds_resolve s name f).trans_heeds ?_
  cases hfound : (resolve s name f).1 with
  | none => exact (hnone _).heeds
  | some found =>
    refine hsome found.1 found.2 _ ?_
    rw [resolve_diagnostics, Diagnostics.hasError_append, hf, Bool.false_or]
    exact Shelf.gives_resolve_unfailed s.kind f.server.typeName _ name _ f.world found hfound

end Rpc

end Server

end ProviderKit
