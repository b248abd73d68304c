import ProviderKit.Proofs.Server.Additions
import ProviderKit.Server.Apply

-- What a request needs before the provider's code carries it out: an instance of the type it
-- names, and its private state. Where it does not get them, an error was reported.

namespace ProviderKit

variable {σ δ α γ ι κ η : Type}

/-! ## Looking up what is declared -/

/-- What an answer is missing was reported as an error. -/
def Explained (answer : Option α × Diagnostics) : Prop :=
  answer.1 = none → Diagnostics.hasError answer.2 = true

theorem Catalog.explained_lookup (k : Kind σ ι κ η) (c : Catalog σ ι κ) (name : String) :
    Explained (c.lookup k name) := by
  unfold lookup
  split
  · intro h
    cases h
  · intro _
    rw [Diagnostics.hasError_append]
    exact Bool.or_true _

namespace Shelf

/-- Whatever stands on the shelf, what the work gives satisfies `Q`. -/
def Gives (Q : α → Prop) (work : Work σ ι κ η α) : Prop :=
  ∀ shelf world, Q (work shelf world).1.1

theorem gives_pure {Q : α → Prop} {a : α} (h : Q a) : Gives Q (pure a : Work σ ι κ η α) :=
  fun _ _ => h

theorem Gives.bind {Q : α → Prop} {R : γ → Prop} {work : Work σ ι κ η α}
    {next : α → Work σ ι κ η γ} (h : Gives Q work) (hnext : ∀ a, Q a → Gives R (next a)) :
    Gives R (work >>= next) := fun shelf world => hnext _ (h shelf world) _ _

theorem gives_bind {R : γ → Prop} {work : Work σ ι κ η α} {next : α → Work σ ι κ η γ}
    (hnext : ∀ a, Gives R (next a)) : Gives R (work >>= next) := fun _ _ => hnext _ _ _

theorem gives_useDescription (k : Kind σ ι κ η) (name : String) (entry : Entry σ ι κ) :
    Gives Explained (useDescription k name entry) := by
  refine gives_bind fun shelf => ?_
  split
  · refine gives_pure ?_
    intro h
    cases h
  · refine gives_bind fun described => ?_
    dsimp only
    split
    · next herror =>
      refine gives_pure ?_
      exact fun _ => herror
    · refine gives_bind fun _ => gives_pure ?_
      intro h
      cases h

/-- Where a name is not found, or its description fails, an error says so. -/
theorem gives_resolve (k : Kind σ ι κ η) (providerName : String)
    (declarations : StateM σ (List (Factory σ ι))) (name : String) :
    Gives Explained (resolve k providerName declarations name) := by
  refine gives_bind fun c => ?_
  have hlookup := c.explained_lookup k name
  split
  · next hnone =>
    rw [hnone] at hlookup
    refine gives_pure ?_
    exact fun _ => hlookup rfl
  · refine (gives_useDescription k name _).bind fun described hdescribed => ?_
    dsimp only
    split
    · next hnone =>
      refine gives_pure ?_
      intro _
      rw [Diagnostics.hasError_append, hdescribed hnone, Bool.or_true]
    · refine gives_pure ?_
      intro h
      dsimp only at h ⊢
      split at h
      · next herror => exact herror
      · cases h

end Shelf

namespace Server

namespace Rpc

theorem resolve_diagnostics (s : Slot σ δ ι κ η) (name : String) (f : Frame σ δ) :
    (resolve s name f).2.diagnostics = f.diagnostics ++
      (Shelf.resolve s.kind f.server.typeName (s.declarations f.server.provider) name
        (s.shelf f.server) f.world).1.1.2 := rfl

theorem ensures_resolve (s : Slot σ δ ι κ η) (name : String) :
    Ensures (fun found => found.isSome = true)
      (resolve s name : Rpc σ δ (Option (Entry σ ι κ × η))) := by
  intro f hok
  cases hfound : (resolve s name f).1 with
  | some found => rfl
  | none =>
    have herror := Shelf.gives_resolve s.kind f.server.typeName (s.declarations f.server.provider)
      name (s.shelf f.server) f.world hfound
    rw [resolve_diagnostics, Diagnostics.hasError_append, herror, Bool.or_true] at hok
    cases hok

/-- Without an error there is an instance. -/
theorem ensures_fresh (s : Slot σ δ (DeclaredType σ δ α) κ η) (takesData : κ → Bool)
    (within : α → κ → α) (typeName : String) :
    Ensures (fun ready => ready.isSome = true)
      (fresh s takesData within typeName : Rpc σ δ (Option (α × η))) :=
  (ensures_resolve s typeName).bind_some (adds_pure _) fun _ =>
    ensures_bind fun _ => ensures_pure rfl

end Rpc

/-! ## Instances -/

theorem configures_of_freshResource {typeName : String} {f g : Frame σ δ}
    {ready : Option (Resource.Actions σ × ActiveSchema σ)}
    (hfresh : freshResource typeName f = (ready, g)) : f.Adds Callback.Configures g := by
  have h : f.Adds Callback.Configures (freshResource typeName f).2 :=
    Rpc.adds_configures_fresh resourceSlot _ _ typeName f
  rw [hfresh] at h
  exact h

theorem adds_of_freshResource {typeName : String} {f g : Frame σ δ}
    {ready : Option (Resource.Actions σ × ActiveSchema σ)}
    (hfresh : freshResource typeName f = (ready, g)) : f.Adds Callback.IsAside g :=
  (configures_of_freshResource hfresh).mono fun _ => Callback.Configures.isAside

theorem configures_of_freshDataSource {typeName : String} {f g : Frame σ δ}
    {ready : Option (DataSource.Actions σ × ActiveSchema σ)}
    (hfresh : freshDataSource typeName f = (ready, g)) : f.Adds Callback.Configures g := by
  have h : f.Adds Callback.Configures (freshDataSource typeName f).2 :=
    Rpc.adds_configures_fresh dataSourceSlot _ _ typeName f
  rw [hfresh] at h
  exact h

theorem isSome_of_freshResource {typeName : String} {f g : Frame σ δ}
    {ready : Option (Resource.Actions σ × ActiveSchema σ)}
    (hfresh : freshResource typeName f = (ready, g))
    (hok : Diagnostics.hasError g.diagnostics = false) : ready.isSome = true := by
  have h := Rpc.ensures_fresh (δ := δ) resourceSlot (·.configure) Resource.Actions.within typeName f
  change Diagnostics.hasError (freshResource typeName f).2.diagnostics = false →
    (freshResource typeName f).1.isSome = true at h
  rw [hfresh] at h
  exact h hok

/-! ## Private state -/

/-- Private state is decoded, and any error that was reported by then is the end. -/
theorem decodePrivate_bind_failed (bytes : Bytes) {next : PrivateState → Bool → Rpc σ δ γ}
    (f : Frame σ δ) :
    (do let s ← Rpc.decodePrivate bytes; let failed ← Rpc.failed; next s failed) f =
      if Diagnostics.hasError f.diagnostics = false ∧
          Diagnostics.hasError (PrivateState.decode bytes).2 = false then
        next (PrivateState.decode bytes).1 false f
      else
        next (PrivateState.decode bytes).1 true
          { f with diagnostics := f.diagnostics ++ (PrivateState.decode bytes).2 } := by
  split
  · next hok =>
    rw [rpc_bind, decodePrivate_of_not_failed hok.2, rpc_bind, Rpc.failed_eq, hok.1]
  · next hnot =>
    have hfailed : Diagnostics.hasError (f.diagnostics ++ (PrivateState.decode bytes).2) = true := by
      rw [Diagnostics.hasError_append]
      cases hf : Diagnostics.hasError f.diagnostics with
      | true => rfl
      | false =>
        cases hd : Diagnostics.hasError (PrivateState.decode bytes).2 with
        | true => rfl
        | false => exact absurd ⟨hf, hd⟩ hnot
    have hdecode : Rpc.decodePrivate bytes f = ((PrivateState.decode bytes).1,
        { f with diagnostics := f.diagnostics ++ (PrivateState.decode bytes).2 }) := rfl
    rw [rpc_bind, hdecode, rpc_bind, Rpc.failed_eq, hfailed]

/-- Where no error is reported in the end, private state was decoded. -/
theorem decodePrivate_bind_of_unfailed {bytes : Bytes}
    {next : PrivateState → Bool → Rpc σ δ γ} {f : Frame σ δ}
    (hok : Diagnostics.hasError
      ((do let s ← Rpc.decodePrivate bytes; let failed ← Rpc.failed; next s failed :
        Rpc σ δ γ) f).2.diagnostics = false)
    (hadds : ∀ s, Rpc.Adds (fun _ => True) (next s true)) :
    Diagnostics.hasError (PrivateState.decode bytes).2 = false ∧
      (do let s ← Rpc.decodePrivate bytes; let failed ← Rpc.failed; next s failed :
        Rpc σ δ γ) f = next (PrivateState.decode bytes).1 false f := by
  rw [decodePrivate_bind_failed] at hok ⊢
  split
  · next h => exact ⟨h.2, rfl⟩
  · next hnot =>
    rw [if_neg hnot] at hok
    have hunfailed := (hadds _ _).not_hasError hok
    rw [Diagnostics.hasError_append, Bool.or_eq_false_iff] at hunfailed
    exact absurd hunfailed hnot

/-! ## Changing a resource -/

theorem adds_prepare (r : ApplyRequest) :
    Rpc.Adds Callback.IsAside (prepare r : Rpc σ δ (Option (Prepared σ))) := by
  refine (Rpc.adds_fresh resourceSlot _ _ r.typeName).bind fun ready => ?_
  split
  · exact (Rpc.adds_decodePrivate _).bind fun _ => Rpc.adds_failed.bind fun _ =>
      (Rpc.adds_pure _).ite (Rpc.adds_pure _)
  · exact Rpc.adds_pure _

theorem ensures_prepare (r : ApplyRequest) :
    Rpc.Ensures (fun p => p.isSome = true) (prepare r : Rpc σ δ (Option (Prepared σ))) :=
  (Rpc.ensures_fresh resourceSlot _ _ r.typeName).bind_some (Rpc.adds_pure _) fun _ =>
    Rpc.ensures_bind fun _ => Rpc.ensures_failed_bind (Rpc.ensures_pure rfl) (Rpc.adds_pure _)

/-- What a change works with comes from a fresh instance and from decoding, both without an
error. -/
theorem freshResource_of_prepare {r : ApplyRequest} {f : Frame σ δ} {p : Prepared σ}
    (h : (prepare r f).1 = some p) :
    freshResource r.typeName f = (some (p.actions, p.schema), (prepare r f).2) ∧
      Diagnostics.hasError (prepare r f).2.diagnostics = false ∧
      p.privateState = (PrivateState.decode r.privateBytes).1 := by
  unfold prepare at h ⊢
  rw [rpc_bind] at h ⊢
  cases hfresh : freshResource (δ := δ) r.typeName f with
  | mk ready g =>
    rw [hfresh] at h
    cases ready with
    | none => cases h
    | some ready =>
      dsimp only at h ⊢
      rw [decodePrivate_bind_failed] at h ⊢
      split at h
      · next hok =>
        cases h
        rw [if_pos hok]
        exact ⟨rfl, hok.1, rfl⟩
      · cases h

end Server

end ProviderKit
