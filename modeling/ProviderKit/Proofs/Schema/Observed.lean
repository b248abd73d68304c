import ProviderKit.Schema.Walk

-- Walks in different monads. Where the steps of one show what those of another come to, so does the
-- whole walk.

namespace ProviderKit

variable {β : Type}

/-- What is seen of steps in some monad is what comes of them as they are put together. -/
structure Observes {m : Type → Type} [Monad m] [MonadExceptOf Fault m]
    (R : (α : Type) → m α → Except Fault α → Prop) : Prop where
  pure {α : Type} (a : α) : R α (pure a) (.ok a)
  throw {α : Type} (fault : Fault) : R α (throwThe Fault fault) (.error fault)
  bind {α γ : Type} {x : m α} {e : Except Fault α} {f : α → m γ} {g : α → Except Fault γ} :
    R α x e → (∀ a, R γ (f a) (g a)) → R γ (x >>= f) (e >>= g)

namespace Observes

variable {m : Type → Type} [Monad m] [MonadExceptOf Fault m]
  {R : (α : Type) → m α → Except Fault α → Prop} {walk : Path → Position β → Value → m Value}
  {walk' : Path → Position β → Value → Except Fault Value}

theorem map (hR : Observes R) {α γ : Type} {x : m α} {e : Except Fault α} (h : R α x e)
    (f : α → γ) : R γ (do return f (← x)) (do return f (← e)) := hR.bind h fun a => hR.pure (f a)

theorem walkItems (hR : Observes R)
    (h : ∀ path position x, R _ (walk path position x) (walk' path position x)) (path : Path)
    (child : Nat → Value → Position.Child β) (i : Nat) (xs : List Value) :
    R _ (walkItems walk path child i xs) (walkItems walk' path child i xs) := by
  induction xs generalizing i with
  | nil => exact hR.pure []
  | cons x xs ih => exact hR.bind (h _ _ x) fun y => hR.map (ih (i + 1)) (y :: ·)

theorem walkEntries (hR : Observes R)
    (h : ∀ path position x, R _ (walk path position x) (walk' path position x)) (path : Path)
    (child : String → Position.Child β) (es : List (String × Value)) :
    R _ (walkEntries walk path child es) (walkEntries walk' path child es) := by
  induction es with
  | nil => exact hR.pure []
  | cons e es ih => exact hR.bind (h _ _ e.2) fun y => hR.map ih ((e.1, y) :: ·)

theorem mismatch (hR : Observes R) (path : Path) (position : Position β) (v : Value) :
    R _ (walkBelow.mismatch path position v) (walkBelow.mismatch path position v) := by
  unfold walkBelow.mismatch
  split
  · exact hR.throw _
  · exact hR.pure v

theorem walkBelow (hR : Observes R)
    (h : ∀ path position x, R _ (walk path position x) (walk' path position x)) (path : Path)
    (position : Position β) (v : Value) :
    R _ (walkBelow walk path position v) (walkBelow walk' path position v) := by
  unfold ProviderKit.walkBelow
  cases v with
  | null => exact hR.pure _
  | unknown => exact hR.pure _
  | map es =>
    cases position.entryChild with
    | none => exact hR.mismatch path position _
    | some child => exact hR.map (hR.walkEntries h path child es) Value.map
  | list xs =>
    cases position.itemChild with
    | none => exact hR.mismatch path position _
    | some child => exact hR.map (hR.walkItems h path child 0 xs) Value.list
  | _ => exact hR.mismatch path position _

/-- Two walks in the same order go alike when their visitors do. -/
theorem walkLevels (hR : Observes R) {visit : Visit β m} {visit' : Visit β (Except Fault)}
    (h : ∀ path node x, R _ (visit path node x) (visit' path node x)) (order : WalkOrder)
    (levels : Nat) (path : Path) (position : Position β) (v : Value) :
    R _ (walkLevels order visit levels path position v)
      (walkLevels order visit' levels path position v) := by
  induction levels generalizing path position v with
  | zero => exact hR.pure v
  | succ levels ih =>
    cases order with
    | topDown => exact hR.bind (h _ _ v) fun u => hR.walkBelow ih path position u
    | bottomUp => exact hR.bind (hR.walkBelow ih path position v) fun u => h _ _ u

end Observes

/-- What comes of a step that acts on a world, whatever it does there. -/
theorem observes_outcome (τ : Type) :
    Observes fun α (x : ExceptT Fault (StateM τ) α) e => ∀ t, (x.run t).1 = e where
  pure a t := rfl
  throw fault t := rfl
  bind {α γ x e f g} hx hf t := by
    have hx : (x.run t).1 = e := hx t
    have hrun (k : Except Fault α → StateM τ (Except Fault γ)) :
        (x.run >>= k) t = k (x.run t).1 (x.run t).2 := rfl
    rw [ExceptT.run_bind, hrun, hx]
    cases e with
    | ok a => exact hf a _
    | error fault => rfl

end ProviderKit
