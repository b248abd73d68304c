import ProviderKit.Proofs.Provider.Conduct
import ProviderKit.Proofs.Value.Contents
import ProviderKit.Reconcile.Basic

-- Reconciling keeps a conduct if every predicate of the schema does. What all of them report is
-- what their runs say, in the order of the runs.

namespace ProviderKit

variable {σ : Type} {C : Conduct σ}

/-- Everything attached at a node and below keeps the conduct. -/
def Node.Keeps (C : Conduct σ) (n : Node (Behaviour σ)) : Prop := ∀ b ∈ n.behaviours, b.Keeps C

theorem Node.Keeps.of_declares {n m : Node (Behaviour σ)} {s : Step} (h : n.Keeps C)
    (hm : n.Declares s m) : m.Keeps C := fun b hb => h b (hm.behaviours hb)

namespace Reconcile

variable {node m : Node (Behaviour σ)}

theorem declares_of_entryNode {key : String} {step : Step}
    (h : entryNode node key = some (step, m)) : node.Declares step m := by
  unfold entryNode at h
  split at h
  · next hv =>
    obtain ⟨member, hmember, heq⟩ := Option.map_eq_some_iff.mp h
    cases heq
    exact (Node.Leads.member hv hmember).declares
  · next hv =>
    cases h
    exact .entry key hv
  · cases h

theorem declares_of_itemNode? (h : itemNode? node = some m) : ∃ step, node.Declares step m := by
  unfold itemNode? at h
  split at h
  · next hv =>
    cases h
    exact ⟨_, .item 0 hv⟩
  · next hv =>
    cases h
    exact ⟨_, .element .null hv⟩
  · cases h

theorem value_of_atom {v : Value} (hv : v.isAtom = true) (node : Node (Behaviour σ)) (path : Path)
    (prior : Value) :
    value node path prior v = (do return (← settle node path prior v).getD v) := by
  rw [value]
  · rintro es rfl
    cases hv
  · rintro xs rfl
    cases hv

theorem compare_eq (predicate : SemanticEquality σ) (path : Path) (prior proposed : Value) :
    compare predicate path prior proposed = (do
      let calls ← get
      let said ← predicate prior proposed
      set (calls ++ [EqualityCall.mk path prior proposed said.1 said.2])
      return ⟨path, prior, proposed, said.1, said.2⟩) := rfl

theorem logs_settle (h : node.Keeps C) (path : Path) (prior proposed : Value) :
    C.Logs EqualityCall.reported (settle node path prior proposed) := by
  unfold settle
  split
  · next a =>
    have ha : a.behaviour.Keeps C := h _ (by
      rw [Node.behaviours, a.behaviours_eq]
      exact List.mem_cons_self)
    split
    · exact Conduct.logs_pure _
    · split
      · exact Conduct.logs_pure _
      · next predicate hpredicate =>
        have hcompare : C.Logs EqualityCall.reported (compare predicate path prior proposed) := by
          rw [compare_eq]
          exact Conduct.Logs.record _ (fun _ => ha.equality predicate hpredicate prior proposed)
            (fun _ _ => rfl) fun _ _ => Conduct.logs_pure _
        refine hcompare.bind fun call => ?_
        split
        · exact Conduct.logs_pure _
        · exact Conduct.logs_pure _
  · exact Conduct.logs_pure _

/-- Reconciling a value keeps the conduct, wherever the value is and at whatever node. -/
def Conducted (C : Conduct σ) (v : Value) : Prop :=
  ∀ (node : Node (Behaviour σ)), node.Keeps C → ∀ path prior,
    C.Logs EqualityCall.reported (value node path prior v)

theorem logs_items (h : node.Keeps C) (path : Path) (i : Nat) {xs : List Value}
    (hxs : ∀ x ∈ xs, Conducted C x) (priors : List Value) :
    C.Logs EqualityCall.reported (items node path i priors xs) := by
  induction xs generalizing i priors with
  | nil =>
    rw [items]
    exact Conduct.logs_pure _
  | cons x xs ih =>
    cases priors with
    | nil =>
      rw [items]
      · exact Conduct.logs_pure _
      · exact List.cons_ne_nil x xs
    | cons p ps =>
      rw [items]
      exact (hxs x List.mem_cons_self node h _ p).bind fun y =>
        (ih (i + 1) (fun z hz => hxs z (List.mem_cons_of_mem _ hz)) ps).map (y :: ·)

theorem logs_entries (h : node.Keeps C) (path : Path) (priors : Keyed Value)
    {es : List (String × Value)} (hes : ∀ e ∈ es, Conducted C e.2) :
    C.Logs EqualityCall.reported (entries (entryNode node) path priors es) := by
  induction es with
  | nil =>
    rw [entries]
    exact Conduct.logs_pure _
  | cons e es ih =>
    obtain ⟨k, x⟩ := e
    rw [entries]
    have hrest (y : Value) := (ih fun f hf => hes f (List.mem_cons_of_mem _ hf)).map ((k, y) :: ·)
    split
    · next p step child _ hchild =>
      have hchild := h.of_declares (declares_of_entryNode hchild)
      exact (hes (k, x) List.mem_cons_self child hchild _ p).bind hrest
    · exact (Conduct.logs_pure x).bind hrest

theorem conducted (v : Value) : Conducted C v := by
  induction v using Value.contentsInduction with
  | list xs ih =>
    intro node h path prior
    rw [value]
    refine (logs_settle h path prior _).bind fun settled => ?_
    split
    · exact Conduct.logs_pure _
    · next element _ _ helement =>
      obtain ⟨step, hstep⟩ := declares_of_itemNode? helement
      exact (logs_items (h.of_declares hstep) path 0 ih _).map Value.list
    · exact Conduct.logs_pure _
  | map es ih =>
    intro node h path prior
    rw [value]
    refine (logs_settle h path prior _).bind fun settled => ?_
    split
    · exact Conduct.logs_pure _
    · exact (logs_entries h path _ ih).map Value.map
    · exact Conduct.logs_pure _
  | atom v hv =>
    intro node h path prior
    rw [value_of_atom hv]
    exact (logs_settle h path prior v).map (·.getD v)

end Reconcile

/-- Reconciling keeps a conduct, and reports what the runs of predicates say. -/
theorem Schema.Keeps.reconcile {s : ActiveSchema σ} (h : s.Keeps C) (prior proposed : Value) :
    C.Keeps (s.reconcile prior proposed) fun r => r.calls.flatMap EqualityCall.reported :=
  (Reconcile.conducted proposed (.block s.root) h .root prior).run Reconciled.mk fun _ _ => rfl

end ProviderKit
