import ProviderKit.Proofs.Server.Steps

-- What serving a request adds to its frame. Diagnostics and calls are added at the end and none
-- is taken away, so an error that was reported stays reported. What holds of a result unless an
-- error was reported is put together step by step from that.

namespace ProviderKit.Server

variable {σ δ α γ ι κ η : Type}

/-- The callback prepares, checks or compares, and carries nothing out. -/
def Callback.IsAside (callback : Callback δ) : Prop := callback.isOperation = false

/-- The callback gives an instance its data. -/
def Callback.Configures (callback : Callback δ) : Prop :=
  ∃ noun typeName data, callback = .configureInstance noun typeName data

theorem Callback.Configures.isAside {callback : Callback δ} (h : callback.Configures) :
    callback.IsAside := by
  obtain ⟨noun, typeName, data, rfl⟩ := h
  rfl

/-! ## Frames that grow -/

/-- From one frame to another, diagnostics and calls were added, calls of certain callbacks
only. -/
structure Frame.Adds (P : Callback δ → Prop) (f g : Frame σ δ) : Prop where
  diagnostics : f.diagnostics <+: g.diagnostics
  calls : ∃ cs, g.calls = f.calls ++ cs ∧ ∀ c ∈ cs, P c.callback

namespace Frame.Adds

variable {P Q : Callback δ → Prop} {f g h : Frame σ δ}

theorem of_eq (hd : g.diagnostics = f.diagnostics) (hc : g.calls = f.calls) : f.Adds P g :=
  ⟨hd ▸ List.prefix_refl _, [], by rw [hc, List.append_nil], by simp⟩

theorem refl (f : Frame σ δ) : f.Adds P f := of_eq rfl rfl

theorem trans (hfg : f.Adds P g) (hgh : g.Adds P h) : f.Adds P h := by
  obtain ⟨cs, hg, hcs⟩ := hfg.calls
  obtain ⟨ds, hh, hds⟩ := hgh.calls
  refine ⟨hfg.diagnostics.trans hgh.diagnostics, cs ++ ds, ?_, ?_⟩
  · rw [hh, hg, List.append_assoc]
  · intro c hc
    rcases List.mem_append.mp hc with hc | hc
    · exact hcs c hc
    · exact hds c hc

theorem mono (hPQ : ∀ callback, P callback → Q callback) (hfg : f.Adds P g) : f.Adds Q g := by
  obtain ⟨cs, hg, hcs⟩ := hfg.calls
  exact ⟨hfg.diagnostics, cs, hg, fun c hc => hPQ _ (hcs c hc)⟩

theorem mem_calls (hfg : f.Adds P g) {c : Call δ} (hc : c ∈ g.calls) :
    c ∈ f.calls ∨ P c.callback := by
  obtain ⟨cs, hg, hcs⟩ := hfg.calls
  rw [hg] at hc
  rcases List.mem_append.mp hc with hc | hc
  · exact .inl hc
  · exact .inr (hcs c hc)

/-- What was called stays noted. -/
theorem mem_of_mem (hfg : f.Adds P g) {c : Call δ} (hc : c ∈ f.calls) : c ∈ g.calls := by
  obtain ⟨cs, hg, _⟩ := hfg.calls
  rw [hg]
  exact List.mem_append_left _ hc

/-- An error stays reported. -/
theorem hasError (hfg : f.Adds P g) (hf : Diagnostics.hasError f.diagnostics = true) :
    Diagnostics.hasError g.diagnostics = true := by
  obtain ⟨ds, hg⟩ := hfg.diagnostics
  rw [← hg, Diagnostics.hasError_append, hf, Bool.true_or]

/-- Where no error is reported in the end, none was before. -/
theorem not_hasError (hfg : f.Adds P g) (hg : Diagnostics.hasError g.diagnostics = false) :
    Diagnostics.hasError f.diagnostics = false := by
  cases hf : Diagnostics.hasError f.diagnostics with
  | false => rfl
  | true =>
    rw [hfg.hasError hf] at hg
    cases hg

end Frame.Adds

/-! ## Frames that only hear reports -/

/-- From one frame to another, diagnostics were added and nothing else happened. -/
structure Frame.Reports (f g : Frame σ δ) : Prop where
  world : g.world = f.world
  server : g.server = f.server
  calls : g.calls = f.calls
  diagnostics : f.diagnostics <+: g.diagnostics

namespace Frame.Reports

variable {P : Callback δ → Prop} {f g h : Frame σ δ}

theorem refl (f : Frame σ δ) : f.Reports f := ⟨rfl, rfl, rfl, List.prefix_rfl⟩

theorem trans (hfg : f.Reports g) (hgh : g.Reports h) : f.Reports h where
  world := hgh.world.trans hfg.world
  server := hgh.server.trans hfg.server
  calls := hgh.calls.trans hfg.calls
  diagnostics := hfg.diagnostics.trans hgh.diagnostics

theorem adds (hfg : f.Reports g) : f.Adds P g :=
  ⟨hfg.diagnostics, [], by rw [hfg.calls, List.append_nil], fun _ hc => by cases hc⟩

theorem not_hasError (hfg : f.Reports g) (hg : Diagnostics.hasError g.diagnostics = false) :
    Diagnostics.hasError f.diagnostics = false := (hfg.adds (P := fun _ => True)).not_hasError hg

end Frame.Reports

/-! ## Steps that only report -/

namespace Rpc

/-- The step adds diagnostics and does nothing else. -/
def OnlyReports (rpc : Rpc σ δ α) : Prop := ∀ f : Frame σ δ, f.Reports (rpc f).2

theorem OnlyReports.bind {rpc : Rpc σ δ α} {next : α → Rpc σ δ γ} (h : OnlyReports rpc)
    (hnext : ∀ a, OnlyReports (next a)) : OnlyReports (rpc >>= next) :=
  fun f => (h f).trans (hnext _ _)

theorem OnlyReports.ite {c : Prop} [Decidable c] {rpc rpc' : Rpc σ δ α} (h : OnlyReports rpc)
    (h' : OnlyReports rpc') : OnlyReports (if c then rpc else rpc') := by
  split
  · exact h
  · exact h'

theorem onlyReports_pure (a : α) : OnlyReports (pure a : Rpc σ δ α) := fun f => .refl f

theorem onlyReports_failed : OnlyReports (failed : Rpc σ δ Bool) := fun f => .refl f

theorem onlyReports_report (ds : Diagnostics) : OnlyReports (report ds : Rpc σ δ Unit) :=
  fun _ => ⟨rfl, rfl, rfl, List.prefix_append _ _⟩

/-- Reporting and then going on with what is known. -/
theorem onlyReports_report_pure (ds : Diagnostics) (a : α) :
    OnlyReports (report ds >>= fun _ => pure a : Rpc σ δ α) :=
  (onlyReports_report ds).bind fun _ => onlyReports_pure a

theorem onlyReports_providerMeta (raw : Option Value) :
    OnlyReports (providerMeta raw : Rpc σ δ Described) := fun f => .refl f

theorem onlyReports_decodePrivate (bytes : Bytes) :
    OnlyReports (decodePrivate bytes : Rpc σ δ PrivateState) := onlyReports_report_pure _ _

theorem onlyReports_encodePrivate (s : PrivateState) :
    OnlyReports (encodePrivate s : Rpc σ δ Bytes) := onlyReports_report_pure _ _

theorem onlyReports_threadPrivate (bytes : Bytes) (prior current : PrivateState) :
    OnlyReports (threadPrivate bytes prior current : Rpc σ δ Bytes) :=
  (onlyReports_pure bytes).ite (onlyReports_encodePrivate current)

/-! ## Steps that add -/

/-- The step adds diagnostics and calls of certain callbacks. -/
def Adds (P : Callback δ → Prop) (rpc : Rpc σ δ α) : Prop := ∀ f : Frame σ δ, f.Adds P (rpc f).2

/-- The step reports nothing and calls no callback. -/
def Silent (rpc : Rpc σ δ α) : Prop :=
  ∀ f, (rpc f).2.diagnostics = f.diagnostics ∧ (rpc f).2.calls = f.calls

variable {P : Callback δ → Prop}

theorem Silent.adds {rpc : Rpc σ δ α} (h : Silent rpc) : Adds P rpc :=
  fun f => .of_eq (h f).1 (h f).2

theorem silent_get : Silent (get : Rpc σ δ (Frame σ δ)) := fun _ => ⟨rfl, rfl⟩

theorem silent_act (action : StateM σ α) : Silent (act action : Rpc σ δ α) := fun _ => ⟨rfl, rfl⟩

theorem silent_providerMeta (raw : Option Value) :
    Silent (providerMeta raw : Rpc σ δ Described) := fun _ => ⟨rfl, rfl⟩

theorem Adds.bind {rpc : Rpc σ δ α} {next : α → Rpc σ δ γ} (h : Adds P rpc)
    (hnext : ∀ a, Adds P (next a)) : Adds P (rpc >>= next) :=
  fun f => (h f).trans (hnext _ _)

theorem Adds.mono {Q : Callback δ → Prop} (hPQ : ∀ callback, P callback → Q callback)
    {rpc : Rpc σ δ α} (h : Adds P rpc) : Adds Q rpc := fun f => (h f).mono hPQ

theorem Adds.ite {c : Prop} [Decidable c] {rpc rpc' : Rpc σ δ α} (h : Adds P rpc)
    (h' : Adds P rpc') : Adds P (if c then rpc else rpc') := by
  split
  · exact h
  · exact h'

theorem adds_pure (a : α) : Adds P (pure a : Rpc σ δ α) := fun f => .refl f

theorem adds_get : Adds P (get : Rpc σ δ (Frame σ δ)) := silent_get.adds

theorem adds_failed : Adds P (failed : Rpc σ δ Bool) := fun f => .refl f

theorem adds_act (action : StateM σ α) : Adds P (act action : Rpc σ δ α) :=
  (silent_act action).adds

theorem adds_report (ds : Diagnostics) : Adds P (report ds : Rpc σ δ Unit) :=
  fun f => ⟨List.prefix_append _ _, [], (List.append_nil f.calls).symm, by simp⟩

theorem adds_note {callback : Callback δ} (h : P callback) (reported : Diagnostics) :
    Adds P (note callback reported : Rpc σ δ Unit) := by
  intro f
  refine ⟨List.prefix_append _ _, [⟨callback, f.diagnostics, reported⟩], rfl, fun c hc => ?_⟩
  rw [List.mem_singleton.mp hc]
  exact h

theorem adds_call {callback : Callback δ} (h : P callback) (action : StateM σ α)
    (reported : α → Diagnostics) : Adds P (call callback action reported : Rpc σ δ α) :=
  (adds_act action).bind fun a => (adds_note h (reported a)).bind fun _ => adds_pure a

theorem adds_noteAll {callback : ι → Callback δ} (h : ∀ i, P (callback i))
    (reported : ι → Diagnostics) (is : List ι) :
    Adds P (noteAll callback reported is : Rpc σ δ Unit) := by
  induction is with
  | nil => exact adds_pure ()
  | cons i rest ih => exact (adds_note (h i) (reported i)).bind fun _ => ih

theorem adds_onShelf (s : Slot σ δ ι κ η) (work : Shelf.Work σ ι κ η α) :
    Adds P (onShelf s work : Rpc σ δ α) := fun _ => .of_eq rfl rfl

theorem adds_resolve (s : Slot σ δ ι κ η) (name : String) :
    Adds P (resolve s name : Rpc σ δ (Option (Entry σ ι κ × η))) :=
  adds_get.bind fun _ => (adds_onShelf s _).bind fun _ =>
    (adds_report _).bind fun _ => adds_pure _

theorem adds_listNames (s : Slot σ δ ι κ η) :
    Adds P (listNames s : Rpc σ δ (List String)) :=
  adds_get.bind fun _ => (adds_onShelf s _).bind fun _ =>
    (adds_report _).bind fun _ => adds_pure _

theorem adds_describeAll (s : Slot σ δ ι κ η) :
    Adds P (describeAll s : Rpc σ δ (Keyed η)) :=
  adds_get.bind fun _ => (adds_onShelf s _).bind fun _ =>
    (adds_report _).bind fun _ => adds_pure _

theorem OnlyReports.adds {rpc : Rpc σ δ α} (h : OnlyReports rpc) : Adds P rpc :=
  fun f => (h f).adds

/-- What the server remembers is no matter of the frame's reports. -/
theorem adds_remember (change : Frame σ δ → Server σ δ) :
    Adds P (modify fun f => { f with server := change f } : Rpc σ δ Unit) :=
  fun _ => .of_eq rfl rfl

theorem adds_providerSchema : Adds P (providerSchema : Rpc σ δ (Option PlainSchema)) := by
  refine adds_get.bind fun f => ?_
  dsimp only
  split
  · exact adds_pure _
  · refine (adds_act _).bind fun _ => (adds_report _).bind fun _ => (adds_pure _).ite ?_
    exact (adds_remember _).bind fun _ => adds_pure _

/-- Nothing but an instance's own callback is called before it has its data. -/
theorem adds_configures_instantiate (s : Slot σ δ (DeclaredType σ δ α) κ η) (typeName : String)
    (takesData : Bool) (factory : Factory σ (DeclaredType σ δ α)) :
    Adds Callback.Configures (instantiate s typeName takesData factory : Rpc σ δ α) := by
  refine adds_get.bind fun _ => (adds_act factory).bind fun fresh => ?_
  split
  · exact adds_pure _
  · exact (adds_call ⟨_, _, _, rfl⟩ _ _).bind fun _ => adds_pure _

theorem adds_configures_fresh (s : Slot σ δ (DeclaredType σ δ α) κ η) (takesData : κ → Bool)
    (within : α → κ → α) (typeName : String) :
    Adds Callback.Configures (fresh s takesData within typeName : Rpc σ δ (Option (α × η))) := by
  refine (adds_resolve s typeName).bind fun found => ?_
  split
  · exact adds_pure _
  · exact (adds_configures_instantiate s typeName _ _).bind fun _ => adds_pure _

/-- Giving an instance its data is no operation of its own. -/
theorem adds_instantiate (s : Slot σ δ (DeclaredType σ δ α) κ η) (typeName : String)
    (takesData : Bool) (factory : Factory σ (DeclaredType σ δ α)) :
    Adds Callback.IsAside (instantiate s typeName takesData factory : Rpc σ δ α) :=
  (adds_configures_instantiate s typeName takesData factory).mono
    fun _ => Callback.Configures.isAside

theorem adds_fresh (s : Slot σ δ (DeclaredType σ δ α) κ η) (takesData : κ → Bool)
    (within : α → κ → α) (typeName : String) :
    Adds Callback.IsAside (fresh s takesData within typeName : Rpc σ δ (Option (α × η))) :=
  (adds_configures_fresh s takesData within typeName).mono fun _ => Callback.Configures.isAside

theorem adds_decodePrivate (bytes : Bytes) :
    Adds P (decodePrivate bytes : Rpc σ δ PrivateState) := (onlyReports_decodePrivate bytes).adds

theorem adds_encodePrivate (s : PrivateState) : Adds P (encodePrivate s : Rpc σ δ Bytes) :=
  (adds_report _).bind fun _ => adds_pure _

theorem adds_threadPrivate (bytes : Bytes) (prior current : PrivateState) :
    Adds P (threadPrivate bytes prior current : Rpc σ δ Bytes) :=
  (onlyReports_threadPrivate bytes prior current).adds

/-- Comparing values is no operation. -/
theorem adds_reconcile (schema : ActiveSchema σ) (prior proposed : Value) :
    Adds Callback.IsAside (reconcile schema prior proposed : Rpc σ δ Value) := by
  refine (adds_act _).bind fun r => (adds_noteAll ?_ _ r.calls).bind fun _ => adds_pure _
  exact fun _ => rfl

/-- So it is where prior values are kept only if nothing has failed. -/
theorem adds_reconcile_unless_failed (schema : ActiveSchema σ) (prior proposed : Value)
    (give : Value → α) :
    Adds Callback.IsAside
      (do
        if ← failed then return give proposed
        return give (← reconcile schema prior proposed) : Rpc σ δ α) :=
  adds_failed.bind fun _ => (adds_pure _).ite
    ((adds_reconcile schema prior proposed).bind fun _ => adds_pure _)

/-! ## Results without errors -/

/-- Unless something that was reported is an error, the result satisfies `Q`. -/
def Ensures (Q : α → Prop) (rpc : Rpc σ δ α) : Prop :=
  ∀ f, Diagnostics.hasError (rpc f).2.diagnostics = false → Q (rpc f).1

/-- Whatever was reported, the result satisfies `Q`. -/
def Gives (Q : α → Prop) (rpc : Rpc σ δ α) : Prop := ∀ f, Q (rpc f).1

variable {Q : α → Prop} {R : γ → Prop} {rpc : Rpc σ δ α} {next : α → Rpc σ δ γ}

theorem gives_pure {a : α} (h : Q a) : Gives Q (pure a : Rpc σ δ α) := fun _ => h

theorem gives_bind (hnext : ∀ a, Gives R (next a)) : Gives R (rpc >>= next) :=
  fun f => hnext (rpc f).1 (rpc f).2

theorem Gives.bind (h : Gives Q rpc) (hnext : ∀ a, Q a → Gives R (next a)) :
    Gives R (rpc >>= next) := fun f => hnext (rpc f).1 (h f) (rpc f).2

theorem ensures_pure {a : α} (h : Q a) : Ensures Q (pure a : Rpc σ δ α) := fun _ _ => h

theorem ensures_bind (hnext : ∀ a, Ensures R (next a)) : Ensures R (rpc >>= next) :=
  fun f => hnext (rpc f).1 (rpc f).2

theorem Gives.bind_ensures (h : Gives Q rpc) (hnext : ∀ a, Q a → Ensures R (next a)) :
    Ensures R (rpc >>= next) := fun f => hnext (rpc f).1 (h f) (rpc f).2

/-- What a step ensures may be used after it. Where the step falls short, its error must not be
lost. -/
theorem Ensures.bind (h : Ensures Q rpc) (hnext : ∀ a, Q a → Ensures R (next a))
    (hshort : ∀ a, ¬ Q a → Adds (fun _ => True) (next a)) : Ensures R (rpc >>= next) := by
  intro f hok
  by_cases hq : Q (rpc f).1
  · exact hnext _ hq _ hok
  · exact absurd (h f ((hshort _ hq _).not_hasError hok)) hq

/-- Where a step that may fall short always ensures something, only what is done with that has
to ensure anything. -/
theorem Ensures.bind_some {rpc : Rpc σ δ (Option α)} {next : Option α → Rpc σ δ γ}
    (h : Ensures (fun found => found.isSome = true) rpc)
    (hnone : Adds (fun _ => True) (next none)) (hsome : ∀ a, Ensures R (next (some a))) :
    Ensures R (rpc >>= next) := by
  refine h.bind (fun found hfound => ?_) (fun found hfound => ?_)
  · cases found with
    | none => cases hfound
    | some a => exact hsome a
  · cases found with
    | none => exact hnone
    | some a => exact absurd rfl hfound

/-- Where an error was reported before, nothing is left to ensure. -/
theorem ensures_failed_bind {next : Bool → Rpc σ δ γ} (hnext : Ensures R (next false))
    (hadds : Adds (fun _ => True) (next true)) : Ensures R (failed >>= next) := by
  intro f hok
  cases hf : Diagnostics.hasError f.diagnostics with
  | false =>
    rw [rpc_bind, failed_eq, hf] at hok ⊢
    exact hnext f hok
  | true =>
    rw [rpc_bind, failed_eq, hf] at hok
    rw [(hadds f).hasError hf] at hok
    cases hok

/-- Where no error is reported in the end, a step that gives up on errors went on. -/
theorem failed_bind_of_unfailed {next : Bool → Rpc σ δ γ} {f : Frame σ δ}
    (hok : Diagnostics.hasError ((failed >>= next) f).2.diagnostics = false)
    (hadds : Adds (fun _ => True) (next true)) :
    Diagnostics.hasError f.diagnostics = false ∧ (failed >>= next) f = next false f := by
  rw [rpc_bind, failed_eq] at hok ⊢
  cases hf : Diagnostics.hasError f.diagnostics with
  | false => exact ⟨rfl, rfl⟩
  | true =>
    rw [hf] at hok
    rw [(hadds f).hasError hf] at hok
    cases hok

/-- An error that is reported is not lost with what comes after it. -/
theorem hasError_report_bind {d : Diagnostic} (hd : d.isError = true) {next : Unit → Rpc σ δ γ}
    (hadds : Adds (fun _ => True) (next ())) (f : Frame σ δ) :
    Diagnostics.hasError ((report [d] >>= next) f).2.diagnostics = true := by
  have herror : Diagnostics.hasError (f.diagnostics ++ [d]) = true := by
    simp [Diagnostics.hasError, hd]
  rw [rpc_bind, report_eq]
  exact (hadds _).hasError herror

theorem ensures_report_bind {d : Diagnostic} (hd : d.isError = true) {next : Unit → Rpc σ δ γ}
    (hadds : Adds (fun _ => True) (next ())) : Ensures R (report [d] >>= next) :=
  fun f hok => Bool.noConfusion (hok.symm.trans (hasError_report_bind hd hadds f))

/-! ## Results with errors -/

/-- If something that was reported is an error, the result satisfies `Q`. -/
def OnError (Q : α → Prop) (rpc : Rpc σ δ α) : Prop :=
  ∀ f, Diagnostics.hasError (rpc f).2.diagnostics = true → Q (rpc f).1

theorem onError_pure {a : α} (h : Q a) : OnError Q (pure a : Rpc σ δ α) := fun _ _ => h

theorem onError_bind (hnext : ∀ a, OnError R (next a)) : OnError R (rpc >>= next) :=
  fun f => hnext (rpc f).1 (rpc f).2

theorem onError_failed_bind {next : Bool → Rpc σ δ γ} (hfailed : OnError R (next true))
    (hnext : ∀ f, Diagnostics.hasError f.diagnostics = false →
      Diagnostics.hasError (next false f).2.diagnostics = true → R (next false f).1) :
    OnError R (failed >>= next) := by
  intro f herror
  rw [rpc_bind, failed_eq] at herror ⊢
  cases hf : Diagnostics.hasError f.diagnostics with
  | true => exact hfailed f (hf ▸ herror)
  | false => exact hnext f hf (hf ▸ herror)

end Rpc

end ProviderKit.Server
