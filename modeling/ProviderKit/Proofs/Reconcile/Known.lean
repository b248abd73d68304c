import ProviderKit.Proofs.Reconcile.Predicates
import ProviderKit.Proofs.Value.Equality

-- Whether reconciling brings unknown values in. A predicate is asked about known values, but there
-- may be unknown values inside of them, and where it finds a prior value equal, all of that is
-- kept.

namespace ProviderKit

variable {σ : Type}

/-- If the predicate found the two values equal, nothing in the prior one is unknown. -/
def EqualityCall.KeepsKnown (call : EqualityCall) : Prop :=
  call.failed = false → call.equal = true → call.prior.isFullyKnown = true

namespace Reconcile

variable {α γ : Type}

/-! ## Steps -/

/-- What the step gives satisfies `P` exactly if each prior value that a predicate found equal on
the way is fully known. So it does whenever `H` says that the prior value as a whole is. -/
def KnownIff (H : Prop) (P : α → Prop) (m : ReconcileM σ α) : Prop :=
  ∀ calls world, ∃ more, (m calls world).1.2 = calls ++ more ∧
    (P (m calls world).1.1 ↔ ∀ call ∈ more, call.KeepsKnown) ∧ (H → P (m calls world).1.1)

variable {H : Prop} {P : α → Prop} {Q : γ → Prop} {m : ReconcileM σ α}

theorem knownIff_pure {a : α} (h : P a) : KnownIff H P (pure a : ReconcileM σ α) :=
  fun calls _ => ⟨[], (List.append_nil calls).symm,
    iff_of_true h (List.forall_mem_nil _), fun _ => h⟩

theorem KnownIff.of_imp {H' : Prop} (hm : KnownIff H P m) (h : H' → H) : KnownIff H' P m := by
  intro calls world
  obtain ⟨more, hcalls, hiff, hknown⟩ := hm calls world
  exact ⟨more, hcalls, hiff, fun hprior => hknown (h hprior)⟩

theorem KnownIff.map (hm : KnownIff H P m) {f : α → γ} (h : ∀ a, Q (f a) ↔ P a) :
    KnownIff H Q (do return f (← m)) := by
  intro calls world
  obtain ⟨more, hcalls, hiff, hknown⟩ := hm calls world
  exact ⟨more, hcalls, (h _).trans hiff, fun hprior => (h _).mpr (hknown hprior)⟩

/-- Two steps after each other give what is known if both do. -/
theorem KnownIff.and {ε : Type} {R : ε → Prop} {n : ReconcileM σ γ} (hm : KnownIff H P m)
    (hn : KnownIff H Q n) {f : α → γ → ε} (h : ∀ a c, R (f a c) ↔ P a ∧ Q c) :
    KnownIff H R (do let a ← m; return f a (← n)) := by
  intro calls world
  obtain ⟨more, hcalls, hiff, hknown⟩ := hm calls world
  obtain ⟨more', hcalls', hiff', hknown'⟩ := hn (calls ++ more) (m calls world).2
  rw [reconcileM_bind, hcalls]
  refine ⟨more ++ more', ?_, ?_, fun hprior => ?_⟩
  · rw [← List.append_assoc]
    exact hcalls'
  · rw [List.forall_mem_append, ← hiff, ← hiff']
    exact h _ _
  · exact (h _ _).mpr ⟨hknown hprior, hknown' hprior⟩

/-- What a settled value is known by. -/
def SettledKnown (settled : Option Value) : Prop := ∀ v, settled = some v → v.isFullyKnown = true

theorem settledKnown_none : SettledKnown none := fun _ h => by cases h

theorem settledKnown_some {v : Value} : SettledKnown (some v) ↔ v.isFullyKnown = true :=
  ⟨fun h => h v rfl, fun h _ hw => Option.some.inj hw ▸ h⟩

/-- Where a step has not settled on a value, another one goes on. -/
theorem KnownIff.settled {m : ReconcileM σ (Option Value)} {f : Option Value → ReconcileM σ Value}
    (hm : KnownIff H SettledKnown m) (hsome : ∀ v, f (some v) = pure v)
    (hnone : KnownIff H (·.isFullyKnown = true) (f none)) :
    KnownIff H (·.isFullyKnown = true) (m >>= f) := by
  intro calls world
  obtain ⟨more, hcalls, hiff, hknown⟩ := hm calls world
  rw [reconcileM_bind, hcalls]
  cases hv : (m calls world).1.1 with
  | some v =>
    rw [hv] at hiff hknown
    rw [hsome]
    refine ⟨more, rfl, ?_, fun hprior => settledKnown_some.mp (hknown hprior)⟩
    rw [← hiff]
    exact settledKnown_some.symm
  | none =>
    rw [hv] at hiff
    obtain ⟨more', hcalls', hiff', hknown'⟩ := hnone (calls ++ more) (m calls world).2
    refine ⟨more ++ more', ?_, ?_, hknown'⟩
    · rw [← List.append_assoc]
      exact hcalls'
    · rw [List.forall_mem_append, ← hiff, ← hiff']
      exact ⟨fun h => ⟨settledKnown_none, h⟩, fun h => h.2⟩

/-! ## Values -/

theorem settledKnown_of_call {call : EqualityCall}
    (hproposed : call.proposed.isFullyKnown = true) :
    SettledKnown call.settled ↔ call.KeepsKnown := by
  unfold EqualityCall.settled EqualityCall.KeepsKnown
  cases call.failed with
  | true => exact iff_of_true (settledKnown_some.mpr hproposed) fun h => by cases h
  | false =>
    cases call.equal with
    | true => exact settledKnown_some.trans ⟨fun h _ _ => h, fun h => h rfl rfl⟩
    | false => exact iff_of_true settledKnown_none fun _ h => by cases h

theorem knownIff_settle (node : Node (Behaviour σ)) (path : Path) (prior : Value) {proposed : Value}
    (hproposed : proposed.isFullyKnown = true) :
    KnownIff (prior.isFullyKnown = true) SettledKnown (settle node path prior proposed) := by
  rcases settle_cases node path prior proposed with ⟨_, hsettle⟩ | ⟨_, hsettle⟩ | ⟨_, _, hrun⟩
  · rw [hsettle]
    exact knownIff_pure (settledKnown_some.mpr hproposed)
  · rw [hsettle]
    exact knownIff_pure settledKnown_none
  · intro calls world
    rw [hrun]
    refine ⟨_, rfl, ?_, fun hprior => ?_⟩
    · rw [List.forall_mem_singleton]
      exact settledKnown_of_call hproposed
    · exact (settledKnown_of_call hproposed).mpr fun _ _ => hprior

/-- Wherever a fully known value is and at whatever node: what is made of it is fully known exactly
if the prior values are that it was found equal to. -/
def SettlesKnown (v : Value) : Prop :=
  v.isFullyKnown = true → ∀ {σ : Type} (node : Node (Behaviour σ)) (path : Path) (prior : Value),
    KnownIff (prior.isFullyKnown = true) (·.isFullyKnown = true) (value node path prior v)

theorem knownIff_items (element : Node (Behaviour σ)) (path : Path) (i : Nat)
    (priors : List Value) {xs : List Value} (hxs : ∀ x ∈ xs, SettlesKnown x)
    (hknown : Value.allFullyKnown xs = true) :
    KnownIff (Value.allFullyKnown priors = true) (Value.allFullyKnown · = true)
      (items element path i priors xs) := by
  induction xs generalizing i priors with
  | nil =>
    rw [items]
    exact knownIff_pure rfl
  | cons x xs ih =>
    cases priors with
    | nil =>
      rw [items]
      · exact knownIff_pure hknown
      · exact List.cons_ne_nil x xs
    | cons p ps =>
      obtain ⟨hx, hknown⟩ := (Value.allFullyKnown_cons x xs).mp hknown
      rw [items, Value.allFullyKnown_cons p ps]
      have hitem := hxs x List.mem_cons_self hx element (path.index i) p
      have hrest := ih (i + 1) ps (fun z hz => hxs z (List.mem_cons_of_mem _ hz)) hknown
      exact (hitem.of_imp And.left).and (hrest.of_imp And.right) Value.allFullyKnown_cons

theorem knownIff_entries (child : String → Option (Step × Node (Behaviour σ))) (path : Path)
    (priors : Keyed Value) {es : List (String × Value)} (hes : ∀ e ∈ es, SettlesKnown e.2)
    (hknown : Value.entriesFullyKnown es = true) :
    KnownIff ((Value.map priors).isFullyKnown = true) (Value.entriesFullyKnown · = true)
      (entries child path priors es) := by
  induction es with
  | nil =>
    rw [entries]
    exact knownIff_pure rfl
  | cons e es ih =>
    obtain ⟨k, x⟩ := e
    obtain ⟨hx, hknown⟩ := (Value.entriesFullyKnown_cons k x es).mp hknown
    rw [entries]
    have hrest := ih (fun f hf => hes f (List.mem_cons_of_mem _ hf)) hknown
    split
    · next p step node hp _ =>
      have hentry := hes (k, x) List.mem_cons_self hx node (path.push step) p
      have hprior (h : (Value.map priors).isFullyKnown = true) : p.isFullyKnown = true :=
        Value.isFullyKnown_of_mem_map h (Keyed.mem_of_get? hp)
      exact (hentry.of_imp hprior).and hrest (Value.entriesFullyKnown_cons k)
    · refine KnownIff.and ?_ hrest (Value.entriesFullyKnown_cons k)
      exact knownIff_pure hx

theorem settlesKnown (v : Value) : SettlesKnown v := by
  induction v using Value.contentsInduction with
  | list xs ih =>
    intro hknown σ node path prior
    rw [value]
    refine (knownIff_settle node path prior hknown).settled (fun _ => rfl) ?_
    rw [Value.isFullyKnown] at hknown
    split
    · next h => cases h
    · next priors _ _ =>
      rw [Value.isFullyKnown]
      exact (knownIff_items _ path 0 priors ih hknown).map fun _ => by rw [Value.isFullyKnown]
    · exact knownIff_pure (by rwa [Value.isFullyKnown])
  | map es ih =>
    intro hknown σ node path prior
    rw [value]
    refine (knownIff_settle node path prior hknown).settled (fun _ => rfl) ?_
    rw [Value.isFullyKnown] at hknown
    split
    · next h => cases h
    · exact (knownIff_entries _ path _ ih hknown).map fun _ => by rw [Value.isFullyKnown]
    · exact knownIff_pure (by rwa [Value.isFullyKnown])
  | atom v hv =>
    intro hknown σ node path prior
    rw [value_of_atom hv]
    exact (knownIff_settle node path prior hknown).settled (fun _ => rfl) (knownIff_pure hknown)

end Reconcile

/-- What is made of a fully known value is fully known exactly if all prior values are that were
found equal on the way, so in particular if the prior value is fully known as a whole. -/
theorem Schema.reconcile_isFullyKnown_iff (s : ActiveSchema σ) (prior : Value) {proposed : Value}
    (hproposed : proposed.isFullyKnown = true) (world : σ) :
    let r := (s.reconcile prior proposed world).1
    (r.value.isFullyKnown = true ↔ ∀ call ∈ r.calls, call.KeepsKnown) ∧
      (prior.isFullyKnown = true → r.value.isFullyKnown = true) := by
  obtain ⟨more, hcalls, hknown⟩ :=
    Reconcile.settlesKnown proposed hproposed (.block s.root) .root prior [] world
  rw [List.nil_append] at hcalls
  rw [← hcalls] at hknown
  exact hknown

end ProviderKit
