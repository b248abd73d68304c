import ProviderKit.Proofs.Reconcile.Conducted
import ProviderKit.Proofs.Schema.Places

-- What reconciling does at one node: a predicate is asked there or is not, and what it says
-- settles on a value or leaves it to the parts.

namespace ProviderKit

variable {σ : Type}

/-! ## Predicates -/

/-- The predicate says the same in every world. -/
def SemanticEquality.IsSteady (predicate : SemanticEquality σ) : Prop :=
  ∀ prior proposed v w, (predicate prior proposed v).1 = (predicate prior proposed w).1

namespace SemanticEquality

variable {a b : String}

theorem numericTexts_eq {x y : DecimalText}
    (hx : DecimalText.parse? (Text.trim a.toList) = some x)
    (hy : DecimalText.parse? (Text.trim b.toList) = some y) :
    numericTexts a b = (decide (x = y), []) := by
  simp only [numericTexts, hx, hy]

/-- Where one of the texts holds no number, one error says so. -/
theorem numericTexts_of_unreadable (h : DecimalText.parse? (Text.trim a.toList) = none ∨
    DecimalText.parse? (Text.trim b.toList) = none) :
    ∃ problem, numericTexts a b = (false, [checkError problem]) := by
  cases hy : DecimalText.parse? (Text.trim b.toList) with
  | none =>
    simp only [numericTexts, hy]
    exact ⟨_, rfl⟩
  | some y =>
    rw [hy] at h
    simp only [numericTexts, h.resolve_right (Option.some_ne_none y), hy]
    exact ⟨_, rfl⟩

theorem jsonTexts_eq {x y : Json} (hx : Json.parse a = .ok x) (hy : Json.parse b = .ok y) :
    jsonTexts a b = (x.same y, []) := by
  simp only [jsonTexts, hx, hy]

/-- Only texts are equal, and the comparison of texts says so. -/
theorem exists_of_onTexts {compare : String → String → Bool × Diagnostics} {prior proposed : Value}
    (h : (onTexts compare prior proposed).1 = true) :
    ∃ a b, prior = .string a ∧ proposed = .string b := by
  unfold onTexts at h
  split at h
  · exact ⟨_, _, rfl, rfl⟩
  · cases h

end SemanticEquality

namespace Node

/-- Every predicate that is attached at the node or below has the property. -/
def EveryPredicate (P : SemanticEquality σ → Prop) (n : Node (Behaviour σ)) : Prop :=
  ∀ b ∈ n.behaviours, ∀ predicate, b.semanticEquality = some predicate → P predicate

/-- The predicate is attached to the attribute at the node, and both values are known. -/
def Asks (n : Node (Behaviour σ)) (predicate : SemanticEquality σ) (prior proposed : Value) :
    Prop :=
  ∃ a, n = .attr a ∧ a.behaviour.semanticEquality = some predicate ∧ prior.isKnown = true ∧
    proposed.isKnown = true

/-- The node at which the part under a branch is reconciled. -/
def below? (n : Node (Behaviour σ)) : Branch → Option (Node (Behaviour σ))
  | .entry k => (Reconcile.entryNode n k).map (·.2)
  | .item _ => Reconcile.itemNode? n

variable {n m : Node (Behaviour σ)} {predicate predicate' : SemanticEquality σ} {b : Branch}
  {prior proposed : Value}

theorem EveryPredicate.below {P : SemanticEquality σ → Prop} (h : n.EveryPredicate P)
    (hm : n.below? b = some m) : m.EveryPredicate P := by
  have hdeclares : ∃ step, n.Declares step m := by
    cases b with
    | item i => exact Reconcile.declares_of_itemNode? hm
    | entry k =>
      obtain ⟨⟨step, _⟩, hstep, rfl⟩ := Option.map_eq_some_iff.mp hm
      exact ⟨step, Reconcile.declares_of_entryNode hstep⟩
  obtain ⟨step, hstep⟩ := hdeclares
  exact fun b hb => h b (hstep.behaviours hb)

theorem EveryPredicate.of_asks {P : SemanticEquality σ → Prop} (h : n.EveryPredicate P)
    (hasks : n.Asks predicate prior proposed) : P predicate := by
  obtain ⟨a, rfl, hpredicate, _⟩ := hasks
  refine h a.behaviour ?_ predicate hpredicate
  rw [behaviours, a.behaviours_eq]
  exact List.mem_cons_self

theorem Asks.unique (h : n.Asks predicate prior proposed) (h' : n.Asks predicate' prior proposed) :
    predicate = predicate' := by
  obtain ⟨a, rfl, hpredicate, _⟩ := h
  obtain ⟨_, hattr, hpredicate', _⟩ := h'
  cases hattr
  exact Option.some.inj (hpredicate.symm.trans hpredicate')

/-- A walk of the schema continues at the same nodes. -/
theorem below?_eq_some_iff (x : Value) : n.below? b = some m ↔
    ∃ c, (Position.described n).child? x b = some c ∧ c.position = .described m := by
  cases b with
  | entry k =>
    rw [below?, Reconcile.entryNode, Position.child?, Position.entryChild]
    cases hv : n.view with
    | object attributes blocks =>
      cases hm : member? attributes blocks k <;> simp [hm]
    | map element => simp
    | list _ | set _ => simp
    | atomic type =>
      simp only [Option.map_none, reduceCtorEq, Option.map_some, Option.some.injEq, exists_eq_left',
        false_iff]
      obtain ⟨inner, hinner⟩ :=
        Position.exists_atomicEntry_position (β := Behaviour σ) (some type) k
      simp [hinner]
  | item i =>
    rw [below?, Reconcile.itemNode?, Position.child?, Position.itemChild]
    cases hv : n.view with
    | object _ _ | map _ => simp
    | list element | set element => simp
    | atomic type =>
      simp only [reduceCtorEq, Option.map_some, Option.some.injEq, exists_eq_left', false_iff]
      obtain ⟨inner, hinner⟩ :=
        Position.exists_atomicItem_position (β := Behaviour σ) (some type) i x
      simp [hinner]

end Node

/-- Every predicate of the schema has the property. -/
def Schema.EveryPredicate (P : SemanticEquality σ → Prop) (s : ActiveSchema σ) : Prop :=
  ∀ b ∈ s.behaviours, ∀ predicate, b.semanticEquality = some predicate → P predicate

/-- What is made of the proposed value, unless what is nested in it has to be looked at. -/
def EqualityCall.settled (call : EqualityCall) : Option Value :=
  if call.failed then some call.proposed else if call.equal then some call.prior else none

namespace Reconcile

variable {α γ : Type}

/-! ## Steps -/

theorem reconcileM_bind (m : ReconcileM σ α) (f : α → ReconcileM σ γ) (calls : List EqualityCall)
    (world : σ) :
    (m >>= f) calls world = f (m calls world).1.1 (m calls world).1.2 (m calls world).2 := rfl

/-- Run after any calls and in any world, the step gives what satisfies `P`. -/
def Gives (P : α → Prop) (m : ReconcileM σ α) : Prop := ∀ calls world, P (m calls world).1.1

theorem gives_pure {P : α → Prop} {a : α} (h : P a) : Gives P (pure a : ReconcileM σ α) :=
  fun _ _ => h

theorem Gives.bind {P : α → Prop} {Q : γ → Prop} {m : ReconcileM σ α} {f : α → ReconcileM σ γ}
    (hm : Gives P m) (hf : ∀ a, P a → Gives Q (f a)) : Gives Q (m >>= f) :=
  fun calls world => hf _ (hm calls world) _ _

/-! ## Settling -/

/-- A predicate that has run settles on the proposed value, on the prior one or on none. -/
theorem compare_run (predicate : SemanticEquality σ) (path : Path) (prior proposed : Value)
    (calls : List EqualityCall) (world : σ) :
    let said := predicate prior proposed world
    let call : EqualityCall := ⟨path, prior, proposed, said.1.1, said.1.2⟩
    (do
      let call ← compare predicate path prior proposed
      if call.failed then return some proposed
      else return if call.equal then some prior else none : ReconcileM σ (Option Value))
        calls world = ((call.settled, calls ++ [call]), said.2) := by
  intro said call
  have hcompare : compare predicate path prior proposed calls world =
      ((call, calls ++ [call]), said.2) := rfl
  rw [reconcileM_bind, hcompare, EqualityCall.settled]
  dsimp only
  split <;> rfl

/-- At an attribute that cannot be compared the proposed value stays; where no predicate is asked,
nothing is settled; and a predicate that is asked settles by what it says. -/
theorem settle_cases (node : Node (Behaviour σ)) (path : Path) (prior proposed : Value) :
    (prior.isKnown && proposed.isKnown) = false ∧
      settle node path prior proposed = pure (some proposed) ∨
    (∀ predicate, ¬ node.Asks predicate prior proposed) ∧
      settle node path prior proposed = pure none ∨
    ∃ predicate, node.Asks predicate prior proposed ∧ ∀ calls world,
      let said := predicate prior proposed world
      let call : EqualityCall := ⟨path, prior, proposed, said.1.1, said.1.2⟩
      settle node path prior proposed calls world = ((call.settled, calls ++ [call]), said.2) := by
  cases node with
  | attr a =>
    cases hknown : prior.isKnown && proposed.isKnown with
    | false => exact .inl ⟨rfl, by rw [settle, hknown]; rfl⟩
    | true =>
      obtain ⟨hprior, hproposed⟩ := Bool.and_eq_true_iff.mp hknown
      cases hpredicate : a.behaviour.semanticEquality with
      | none =>
        refine .inr (.inl ⟨?_, ?_⟩)
        · rintro predicate ⟨_, hattr, hsome, _⟩
          cases hattr
          rw [hpredicate] at hsome
          cases hsome
        · simp only [settle, hknown, hpredicate, Bool.not_true, Bool.false_eq_true, if_false]
      | some predicate =>
        have hasks : (Node.attr a).Asks predicate prior proposed :=
          ⟨a, rfl, hpredicate, hprior, hproposed⟩
        refine .inr (.inr ⟨predicate, hasks, fun calls world => ?_⟩)
        refine Eq.trans ?_ (compare_run predicate path prior proposed calls world)
        simp only [settle, hknown, hpredicate, Bool.not_true, Bool.false_eq_true, if_false]
  | block _ | nestedBlock _ | nestedObject _ =>
    refine .inr (.inl ⟨?_, rfl⟩)
    rintro predicate ⟨_, hattr, _⟩
    cases hattr

end Reconcile

end ProviderKit
