import ProviderKit.Proofs.Reconcile.Predicates
import ProviderKit.Proofs.Value.Patches
import ProviderKit.Schema.Build

-- Which prior values reconciling puts in the place of proposed ones. Main statement: the prior
-- value stands wherever the predicate of an attribute finds the two equal without an error, unless
-- one above it has settled the matter, and everything else is as proposed.

namespace ProviderKit

variable {σ : Type}

namespace Node

/-! ## What is substituted -/

/-- The predicate at the node finds the two values equal, and reports no error. -/
def FindsEqual (n : Node (Behaviour σ)) (world : σ) (prior proposed : Value) : Prop :=
  ∃ predicate, n.Asks predicate prior proposed ∧ (predicate prior proposed world).1.1 = true ∧
    Diagnostics.hasError (predicate prior proposed world).1.2 = false

/-- The predicate at the node reports an error. -/
def FailsToCompare (n : Node (Behaviour σ)) (world : σ) (prior proposed : Value) : Prop :=
  ∃ predicate, n.Asks predicate prior proposed ∧
    Diagnostics.hasError (predicate prior proposed world).1.2 = true

/-- At a place below the node there is another node, and both values have something there. -/
structure Pairs (n : Node (Behaviour σ)) (prior proposed : Value) (place : List Branch)
    (m : Node (Behaviour σ)) (p x : Value) : Prop where
  node : (Position.described n).at? proposed place = some (.described m)
  prior : prior.at? place = some p
  proposed : proposed.at? place = some x

/-- At the place, a predicate finds the prior value equal to the proposed one. At no place above it
one did so or failed. -/
def Substitutes (n : Node (Behaviour σ)) (world : σ) (prior proposed : Value)
    (place : List Branch) (p : Value) : Prop :=
  ∃ m x, n.Pairs prior proposed place m p x ∧ m.FindsEqual world p x ∧
    ∀ above k q y, above <+: place → above ≠ place → n.Pairs prior proposed above k q y →
      ¬ k.FindsEqual world q y ∧ ¬ k.FailsToCompare world q y

/-! ## Step by step -/

variable {n m : Node (Behaviour σ)} {world : σ} {prior proposed p x w : Value} {b : Branch}
  {place : List Branch}

theorem Asks.findsEqual_iff {predicate : SemanticEquality σ}
    (h : n.Asks predicate prior proposed) : n.FindsEqual world prior proposed ↔
      (predicate prior proposed world).1.1 = true ∧
        Diagnostics.hasError (predicate prior proposed world).1.2 = false :=
  ⟨fun ⟨_, h', hequal⟩ => h'.unique h ▸ hequal, fun hequal => ⟨predicate, h, hequal⟩⟩

theorem Asks.failsToCompare_iff {predicate : SemanticEquality σ}
    (h : n.Asks predicate prior proposed) : n.FailsToCompare world prior proposed ↔
      Diagnostics.hasError (predicate prior proposed world).1.2 = true :=
  ⟨fun ⟨_, h', hfails⟩ => h'.unique h ▸ hfails, fun hfails => ⟨predicate, h, hfails⟩⟩

theorem pairs_nil_iff : n.Pairs prior proposed [] m p x ↔ n = m ∧ prior = p ∧ proposed = x := by
  constructor
  · rintro ⟨hm, hp, hx⟩
    cases hm
    exact ⟨rfl, Option.some.inj hp, Option.some.inj hx⟩
  · rintro ⟨rfl, rfl, rfl⟩
    exact ⟨rfl, rfl, rfl⟩

theorem pairs_cons_iff : n.Pairs prior proposed (b :: place) m p x ↔
    ∃ k q y, n.below? b = some k ∧ prior.part? b = some q ∧ proposed.part? b = some y ∧
      k.Pairs q y place m p x := by
  constructor
  · rintro ⟨hm, hp, hx⟩
    obtain ⟨y, hy, hm⟩ := Option.bind_eq_some_iff.mp hm
    obtain ⟨c, hc, hm⟩ := Option.bind_eq_some_iff.mp hm
    obtain ⟨q, hq, hp⟩ := Option.bind_eq_some_iff.mp hp
    obtain ⟨k, hk⟩ := Position.exists_described_of_at? hm
    rw [Value.at?, hy] at hx
    rw [hk] at hm
    exact ⟨k, q, y, (below?_eq_some_iff y).mpr ⟨c, hc, hk⟩, hq, hy, hm, hp, hx⟩
  · rintro ⟨k, q, y, hk, hq, hy, hm, hp, hx⟩
    obtain ⟨c, hc, hk⟩ := (below?_eq_some_iff y).mp hk
    refine ⟨?_, ?_, ?_⟩
    · rw [Position.at?, hy, Option.bind_some, hc, Option.bind_some, hk]
      exact hm
    · rw [Value.at?, hq]
      exact hp
    · rw [Value.at?, hy]
      exact hx

/-- The predicate at the node finds the two values equal or fails. -/
def Settles (n : Node (Behaviour σ)) (world : σ) (prior proposed : Value) : Prop :=
  n.FindsEqual world prior proposed ∨ n.FailsToCompare world prior proposed

theorem substitutes_nil_iff : n.Substitutes world prior proposed [] p ↔
    p = prior ∧ n.FindsEqual world prior proposed := by
  constructor
  · rintro ⟨m, x, hpairs, hequal, _⟩
    obtain ⟨rfl, rfl, rfl⟩ := pairs_nil_iff.mp hpairs
    exact ⟨rfl, hequal⟩
  · rintro ⟨rfl, hequal⟩
    exact ⟨n, proposed, pairs_nil_iff.mpr ⟨rfl, rfl, rfl⟩, hequal,
      fun above _ _ _ hle hne => absurd (List.prefix_nil.mp hle) hne⟩

/-- Where a node settles the matter, nothing is substituted below. -/
theorem not_substitutes_of_settles (h : n.Settles world prior proposed) :
    ¬ n.Substitutes world prior proposed (b :: place) p := by
  rintro ⟨m, x, _, _, habove⟩
  obtain ⟨hequal, hfails⟩ := habove [] n prior proposed List.nil_prefix
    (List.cons_ne_nil b place).symm (pairs_nil_iff.mpr ⟨rfl, rfl, rfl⟩)
  exact h.elim hequal hfails

/-- Where it does not, what is substituted below is what is substituted in the parts. -/
theorem substitutes_cons_iff (h : ¬ n.Settles world prior proposed) :
    n.Substitutes world prior proposed (b :: place) p ↔
      ∃ k q y, n.below? b = some k ∧ prior.part? b = some q ∧ proposed.part? b = some y ∧
        k.Substitutes world q y place p := by
  constructor
  · rintro ⟨m, x, hpairs, hequal, habove⟩
    obtain ⟨k, q, y, hk, hq, hy, hpairs⟩ := pairs_cons_iff.mp hpairs
    refine ⟨k, q, y, hk, hq, hy, m, x, hpairs, hequal, fun above l r z hle hne habove' => ?_⟩
    refine habove (b :: above) l r z (List.cons_prefix_cons.mpr ⟨rfl, hle⟩) ?_ ?_
    · exact fun heq => hne (List.cons.inj heq).2
    · exact pairs_cons_iff.mpr ⟨k, q, y, hk, hq, hy, habove'⟩
  · rintro ⟨k, q, y, hk, hq, hy, m, x, hpairs, hequal, habove⟩
    refine ⟨m, x, pairs_cons_iff.mpr ⟨k, q, y, hk, hq, hy, hpairs⟩, hequal, ?_⟩
    intro above l r z hle hne habove'
    cases above with
    | nil =>
      obtain ⟨rfl, rfl, rfl⟩ := pairs_nil_iff.mp habove'
      exact ⟨fun hequal => h (.inl hequal), fun hfails => h (.inr hfails)⟩
    | cons c above =>
      obtain ⟨rfl, hrest⟩ := List.cons_prefix_cons.mp hle
      obtain ⟨k', q', y', hk', hq', hy', habove'⟩ := pairs_cons_iff.mp habove'
      cases hk.symm.trans hk'
      cases hq.symm.trans hq'
      cases hy.symm.trans hy'
      exact habove above l r z hrest (fun heq => hne (congrArg (c :: ·) heq)) habove'

/-- The second value is the first one with prior values substituted. -/
abbrev Patches (n : Node (Behaviour σ)) (world : σ) (prior : Value) (proposed w : Value) : Prop :=
  proposed.Patched (n.Substitutes world prior proposed) w

/-- Under a branch, values are substituted in the part if it has a node and a prior part, and
otherwise it stays. -/
structure PatchesPart (n : Node (Behaviour σ)) (world : σ) (prior : Value) (b : Branch)
    (x y : Value) : Prop where
  patched : ∀ {m p}, n.below? b = some m → prior.part? b = some p → m.Patches world p x y
  kept : n.below? b = none ∨ prior.part? b = none → y = x

/-- Where the predicate fails, everything stays. -/
theorem Patches.of_failsToCompare (h : n.FailsToCompare world prior proposed) :
    n.Patches world prior proposed proposed := by
  refine .of_forall_not (fun place p hp => ?_) proposed
  cases place with
  | nil =>
    obtain ⟨predicate, hasks, hfails⟩ := h
    obtain ⟨_, hequal⟩ := substitutes_nil_iff.mp hp
    have hnot := (hasks.findsEqual_iff.mp hequal).2
    rw [hfails] at hnot
    cases hnot
  | cons b place => exact not_substitutes_of_settles (.inr h) hp

/-- Where the predicate finds the two values equal, the prior one stands for the whole. -/
theorem Patches.of_findsEqual (h : n.FindsEqual world prior proposed) :
    n.Patches world prior proposed prior := by
  refine .of_whole (substitutes_nil_iff.mpr ⟨rfl, h⟩) (fun place p hp => ?_) proposed
  cases place with
  | nil => exact ⟨rfl, (substitutes_nil_iff.mp hp).1⟩
  | cons b place => exact absurd hp (not_substitutes_of_settles (.inl h))

theorem Patches.of_parts (h : ¬ n.Settles world prior proposed)
    (houtline : w.outline = proposed.outline)
    (hparts : ∀ b x y, proposed.part? b = some x → w.part? b = some y →
      n.PatchesPart world prior b x y) : n.Patches world prior proposed w := by
  refine Value.Patched.of_parts ?_ houtline ?_ ?_
  · intro p hp
    exact h (.inl (substitutes_nil_iff.mp hp).2)
  · intro b place p hp
    obtain ⟨_, _, y, _, _, hy, _⟩ := (substitutes_cons_iff h).mp hp
    rw [hy]
    exact Option.some_ne_none y
  · intro b x y hx hy
    have hpart := hparts b x y hx hy
    have hbelow : (fun place => n.Substitutes world prior proposed (b :: place)) = fun place p =>
        ∃ k q, n.below? b = some k ∧ prior.part? b = some q ∧ k.Substitutes world q x place p := by
      funext place p
      rw [substitutes_cons_iff h, hx]
      simp only [Option.some.injEq, exists_and_left, exists_eq_left']
    rw [hbelow]
    cases hk : n.below? b with
    | none =>
      rw [hpart.kept (.inl hk)]
      exact .of_forall_not (by simp) x
    | some k =>
      cases hq : prior.part? b with
      | none =>
        rw [hpart.kept (.inr hq)]
        exact .of_forall_not (by simp) x
      | some q =>
        simp only [Option.some.injEq, exists_and_left, exists_eq_left']
        exact hpart.patched hk hq

/-- Where every part is without a node or without a prior one, nothing changes. -/
theorem Patches.self (h : ¬ n.Settles world prior proposed) (hnone : ∀ b, proposed.part? b ≠ none →
    n.below? b = none ∨ prior.part? b = none) : n.Patches world prior proposed proposed := by
  refine .of_parts h rfl fun b x y hx hy => ?_
  cases hx.symm.trans hy
  refine ⟨fun {m p} hm hp => ?_, fun _ => rfl⟩
  rcases hnone b (hx ▸ Option.some_ne_none x) with hnode | hprior
  · cases hnode.symm.trans hm
  · cases hprior.symm.trans hp

end Node

namespace Reconcile

open Node

variable {n : Node (Behaviour σ)} {world : σ} {prior proposed : Value}

/-! ## What reconciling gives -/

theorem not_settles_of_not_asks (h : ∀ predicate, ¬ n.Asks predicate prior proposed) :
    ¬ n.Settles world prior proposed := by
  rintro (⟨predicate, hasks, _⟩ | ⟨predicate, hasks, _⟩)
  · exact h predicate hasks
  · exact h predicate hasks

/-- A value that is settled on has the prior one substituted as a whole or nothing; otherwise the
matter is not settled. -/
theorem gives_settle (hn : n.EveryPredicate SemanticEquality.IsSteady) (world : σ) (path : Path)
    (prior proposed : Value) :
    Gives (fun settled => (∀ w, settled = some w → n.Patches world prior proposed w) ∧
      (settled = none → ¬ n.Settles world prior proposed)) (settle n path prior proposed) := by
  rcases settle_cases n path prior proposed with ⟨hknown, hsettle⟩ | ⟨hasks, hsettle⟩ | hrun
  · rw [hsettle]
    refine gives_pure ⟨fun w hw => ?_, nofun⟩
    cases hw
    have hasks : ∀ predicate, ¬ n.Asks predicate prior proposed := by
      rintro predicate ⟨_, _, _, hprior, hproposed⟩
      rw [hprior, hproposed] at hknown
      cases hknown
    refine Patches.of_parts (not_settles_of_not_asks hasks) rfl fun b x y hx hy => ?_
    cases hx.symm.trans hy
    refine ⟨fun _ hp => ?_, fun _ => rfl⟩
    rw [Value.isKnown_of_part? hx, Value.isKnown_of_part? hp] at hknown
    cases hknown
  · rw [hsettle]
    exact gives_pure ⟨nofun, fun _ => not_settles_of_not_asks hasks⟩
  · obtain ⟨predicate, hasks, hrun⟩ := hrun
    intro calls here
    rw [hrun, hn.of_asks hasks prior proposed here world]
    unfold EqualityCall.settled EqualityCall.failed
    split
    · next hfailed =>
      refine ⟨fun w hw => ?_, nofun⟩
      cases hw
      exact .of_failsToCompare (hasks.failsToCompare_iff.mpr hfailed)
    · next hfailed =>
      split
      · next hequal =>
        refine ⟨fun w hw => ?_, nofun⟩
        cases hw
        exact .of_findsEqual (hasks.findsEqual_iff.mpr ⟨hequal, Bool.not_eq_true _ ▸ hfailed⟩)
      · next hequal =>
        refine ⟨nofun, fun _ => not_or.mpr ⟨fun h => ?_, fun h => ?_⟩⟩
        · exact hequal (hasks.findsEqual_iff.mp h).1
        · exact hfailed (hasks.failsToCompare_iff.mp h)

/-- Wherever a value is and at whatever node, prior values are substituted in it. -/
def GivesPatches (world : σ) (v : Value) : Prop :=
  ∀ n : Node (Behaviour σ), n.EveryPredicate SemanticEquality.IsSteady → ∀ path prior,
    Gives (n.Patches world prior v) (value n path prior v)

theorem gives_items (hn : n.EveryPredicate SemanticEquality.IsSteady) (path : Path) (i : Nat)
    {xs : List Value} (hxs : ∀ x ∈ xs, GivesPatches world x) (priors : List Value) :
    Gives (fun ys => ys.length = xs.length ∧ ∀ (j : Nat) x y, xs[j]? = some x → ys[j]? = some y →
        (∀ p, priors[j]? = some p → n.Patches world p x y) ∧ (priors[j]? = none → y = x))
      (items n path i priors xs) := by
  induction xs generalizing i priors with
  | nil =>
    rw [items]
    exact gives_pure ⟨rfl, fun j x y hx => absurd hx.symm (Option.some_ne_none x)⟩
  | cons x xs ih =>
    cases priors with
    | nil =>
      rw [items]
      · refine gives_pure ⟨rfl, fun j z y hz hy => ⟨fun p hp => ?_, fun _ => ?_⟩⟩
        · cases hp
        · exact Option.some.inj (hy.symm.trans hz)
      · exact List.cons_ne_nil x xs
    | cons p ps =>
      rw [items]
      refine (hxs x List.mem_cons_self n hn (path.index i) p).bind fun y hy => ?_
      refine (ih (i + 1) (fun z hz => hxs z (List.mem_cons_of_mem _ hz)) ps).bind ?_
      rintro ys ⟨hlength, hys⟩
      refine gives_pure ⟨congrArg (· + 1) hlength, fun j z u hz hu => ?_⟩
      cases j with
      | zero =>
        cases hz
        cases hu
        exact ⟨fun q hq => Option.some.inj hq ▸ hy, fun hp => absurd hp (Option.some_ne_none p)⟩
      | succ j => exact hys j z u hz hu

theorem gives_entries (hn : n.EveryPredicate SemanticEquality.IsSteady) (path : Path)
    (priors : Keyed Value) {es : List (String × Value)} (hes : ∀ e ∈ es, GivesPatches world e.2) :
    Gives (fun fs => Keyed.keys fs = Keyed.keys es ∧ ∀ k x y, Keyed.get? es k = some x →
        Keyed.get? fs k = some y → n.PatchesPart world (.map priors) (.entry k) x y)
      (entries (entryNode n) path priors es) := by
  induction es with
  | nil =>
    rw [entries]
    exact gives_pure ⟨rfl, fun k x y hx => absurd hx.symm (Option.some_ne_none x)⟩
  | cons e es ih =>
    obtain ⟨l, x⟩ := e
    have hrest := ih fun f hf => hes f (List.mem_cons_of_mem _ hf)
    have hcons {y : Value} (hy : n.PatchesPart world (.map priors) (.entry l) x y) :
        Gives (fun fs => Keyed.keys fs = Keyed.keys ((l, x) :: es) ∧
          ∀ k z u, Keyed.get? ((l, x) :: es) k = some z → Keyed.get? fs k = some u →
            n.PatchesPart world (.map priors) (.entry k) z u)
          (do return (l, y) :: (← entries (entryNode n) path priors es)) := by
      refine hrest.bind ?_
      rintro fs ⟨hkeys, hfs⟩
      refine gives_pure ⟨congrArg (l :: ·) hkeys, fun k z u hz hu => ?_⟩
      rw [Keyed.get?_cons] at hz hu
      by_cases hk : l = k
      · rw [if_pos hk] at hz hu
        cases hz
        cases hu
        exact hk ▸ hy
      · rw [if_neg hk] at hz hu
        exact hfs k z u hz hu
    rw [entries]
    split
    · next p step m hp hm =>
      have hbelow : n.below? (.entry l) = some m := by rw [below?, hm, Option.map_some]
      refine (hes (l, x) List.mem_cons_self m (hn.below hbelow) (path.push step) p).bind ?_
      intro y hy
      refine hcons ⟨fun hm' hp' => ?_, ?_⟩
      · cases hbelow.symm.trans hm'
        cases hp.symm.trans hp'
        exact hy
      · rintro (hnone | hnone)
        · rw [hbelow] at hnone
          cases hnone
        · cases hp.symm.trans hnone
    · next hnot =>
      refine hcons ⟨fun {m p} hm hp => ?_, fun _ => rfl⟩
      obtain ⟨⟨step, _⟩, hstep, rfl⟩ := Option.map_eq_some_iff.mp hm
      exact absurd hstep (hnot p step _ hp)

-- By induction on the proposed value: at a node that settles nothing, the outline stays, and each
-- part is patched or stays.
theorem givesPatches (world : σ) (v : Value) : GivesPatches world v := by
  induction v using Value.contentsInduction with
  | list xs ih =>
    intro n hn path prior
    rw [value]
    refine (gives_settle hn world path prior _).bind ?_
    rintro settled ⟨hsome, hnone⟩
    split
    · exact gives_pure (hsome _ rfl)
    · next element priors helement =>
      refine (gives_items (hn.below (b := .item 0) helement) path 0 ih priors).bind ?_
      rintro ys ⟨hlength, hys⟩
      refine gives_pure (Patches.of_parts (hnone rfl) ?_ ?_)
      · simp only [Value.outline, List.map_const', hlength]
      · rintro (k | i) x y hx hy
        · cases hx
        · obtain ⟨hpatched, hkept⟩ := hys i x y hx hy
          refine ⟨fun hm hp => ?_, ?_⟩
          · cases helement.symm.trans hm
            exact hpatched _ hp
          · rintro (hnot | hnot)
            · cases helement.symm.trans hnot
            · exact hkept hnot
    · next hnot =>
      refine gives_pure (.self (hnone rfl) fun b hb => ?_)
      obtain ⟨x, hx⟩ := Option.ne_none_iff_exists'.mp hb
      cases b with
      | entry k => cases hx
      | item i =>
        by_contra hboth
        obtain ⟨helement, hprior⟩ := not_or.mp hboth
        obtain ⟨element, helement⟩ := Option.ne_none_iff_exists'.mp helement
        obtain ⟨p, hp⟩ := Option.ne_none_iff_exists'.mp hprior
        obtain ⟨priors, rfl, _⟩ := Value.exists_list_of_part? hp
        exact hnot element priors helement rfl
  | map es ih =>
    intro n hn path prior
    rw [value]
    refine (gives_settle hn world path prior _).bind ?_
    rintro settled ⟨hsome, hnone⟩
    split
    · exact gives_pure (hsome _ rfl)
    · next priors =>
      refine (gives_entries hn path priors ih).bind ?_
      rintro fs ⟨hkeys, hfs⟩
      refine gives_pure (Patches.of_parts (hnone rfl) ?_ ?_)
      · rw [Value.outline_map, Value.outline_map, hkeys]
      · rintro (k | i) x y hx hy
        · exact hfs k x y hx hy
        · cases hx
    · next hnot =>
      refine gives_pure (.self (hnone rfl) fun b hb => ?_)
      obtain ⟨x, hx⟩ := Option.ne_none_iff_exists'.mp hb
      cases b with
      | item i => cases hx
      | entry k =>
        refine .inr (Option.eq_none_iff_forall_ne_some.mpr fun p hp => ?_)
        obtain ⟨priors, rfl, _⟩ := Value.exists_map_of_part? hp
        exact hnot priors rfl
  | atom v hv =>
    intro n hn path prior
    rw [value_of_atom hv]
    refine (gives_settle hn world path prior v).bind ?_
    rintro settled ⟨hsome, hnone⟩
    cases settled with
    | some w => exact gives_pure (hsome w rfl)
    | none => exact gives_pure (.self (hnone rfl) fun b hb => absurd (Value.part?_of_atom hv b) hb)

end Reconcile

/-- What reconciling gives is the proposed value with prior values substituted where predicates find
the two equal, and there only. -/
theorem Schema.reconcile_substitutes_exactly {s : ActiveSchema σ}
    (hs : s.EveryPredicate SemanticEquality.IsSteady) (world : σ) (prior : Value) {proposed : Value}
    (hproposed : proposed.Ordered) (w : Value) :
    (s.reconcile prior proposed world).1.value = w ↔
      proposed.Patched ((Node.block s.root).Substitutes world prior proposed) w := by
  have hpatches : (Node.block s.root).Patches world prior proposed
      (s.reconcile prior proposed world).1.value :=
    Reconcile.givesPatches world proposed (.block s.root) hs .root prior [] world
  exact ⟨fun hw => hw ▸ hpatches, fun hw => hpatches.unique hproposed hw⟩

/-- Parcels with a weight and a label, and their weight in total. What a label says cannot be
compared. -/
def parcels : ActiveSchema Nat :=
  let weight : Attribute (Behaviour Nat) :=
    ⟨.string, .optionalOnly, none, none, none, ⟨[], some .numeric⟩⟩
  let unreadable : SemanticEquality Nat := fun _ _ asked =>
    ((true, [.error "unreadable" ""]), asked + 1)
  let label : Attribute (Behaviour Nat) :=
    ⟨.string, .optionalOnly, none, none, none, ⟨[], some unreadable⟩⟩
  let lines : Attribute (Behaviour Nat) :=
    ⟨.dynamic, .optionalOnly, none, some ⟨.list, [("label", label), ("weight", weight)]⟩, none,
      ⟨[], none⟩⟩
  ⟨0, ⟨[("parcels", lines), ("total", weight)], [], none⟩⟩

/-- A parcel with a label and a weight. -/
def parcel (label weight : String) : Value :=
  .map [("label", .string label), ("weight", .string weight)]

/-- The first parcel and the total keep the weights they had; the second weighs something else, the
third is new, labels cannot be compared, and nothing is known of remarks. -/
theorem parcels_substitute :
    let prior : Value := .map [("parcels", .list [parcel "a" "1.0", parcel "b" "3"]),
      ("remark", .string "1"), ("total", .string "10")]
    let proposed : Value :=
      .map [("parcels", .list [parcel "A" "1", parcel "B" "2", parcel "C" "3"]),
        ("remark", .string "1.0"), ("total", .string "1e1")]
    let w : Value := .map [("parcels", .list [parcel "A" "1.0", parcel "B" "2", parcel "C" "3"]),
      ("remark", .string "1.0"), ("total", .string "10")]
    parcels.EveryPredicate SemanticEquality.IsSteady ∧ proposed.Ordered ∧
      (parcels.reconcile prior proposed 0).1.value = w ∧
      proposed.Patched ((Node.block parcels.root).Substitutes 0 prior proposed) w := by
  intro prior proposed w
  have hsteady : parcels.EveryPredicate SemanticEquality.IsSteady := by
    have hbehaviours : parcels.behaviours =
        [⟨[], none⟩, _, ⟨[], some .numeric⟩, ⟨[], some .numeric⟩] := rfl
    unfold Schema.EveryPredicate
    rw [hbehaviours]
    simp only [List.forall_mem_cons]
    refine ⟨nofun, ?_, ?_, ?_, nofun⟩
    all_goals
      rintro _ ⟨⟩
      exact fun _ _ _ _ => rfl
  have hproposed : proposed.Ordered := by
    have hparcel (label weight : String) : (parcel label weight).Ordered :=
      Value.ordered_of_keys (show ["label", "weight"].Pairwise (· < ·) by decide) (by simp)
    refine Value.ordered_of_keys (by decide) ?_
    simp [Value.Ordered.list, hparcel]
  have hw : (parcels.reconcile prior proposed 0).1.value = w := rfl
  exact ⟨hsteady, hproposed, hw,
    (Schema.reconcile_substitutes_exactly hsteady 0 prior hproposed w).mp hw⟩

end ProviderKit
