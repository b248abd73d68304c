import ProviderKit.Proofs.Reconcile.Predicates
import ProviderKit.Proofs.Schema.Ordered
import ProviderKit.Schema.Build

-- Reconciling changes nothing where there is nothing to change: not when a value is reconciled with
-- itself, and, where texts are all that is compared, not when it is done a second time.

namespace ProviderKit

variable {σ α γ ε : Type}

namespace Reconcile

/-! ## A value with itself -/

/-- Reconciled with itself, the value stays as it is, wherever it is and at whatever node. -/
def StaysItself (v : Value) : Prop :=
  v.Ordered → ∀ {σ : Type} (n : Node (Behaviour σ)) (path : Path), Gives (· = v) (value n path v v)

theorem gives_settle_self (n : Node (Behaviour σ)) (path : Path) (v : Value) :
    Gives (fun settled => ∀ w, settled = some w → w = v) (settle n path v v) := by
  rcases settle_cases n path v v with ⟨_, hsettle⟩ | ⟨_, hsettle⟩ | ⟨predicate, _, hrun⟩
  · rw [hsettle]
    exact gives_pure fun w hw => (Option.some.inj hw).symm
  · rw [hsettle]
    exact gives_pure fun w hw => absurd hw.symm (Option.some_ne_none w)
  · intro calls world w hw
    rw [hrun] at hw
    dsimp only [EqualityCall.settled] at hw
    split at hw
    · exact (Option.some.inj hw).symm
    · split at hw
      · exact (Option.some.inj hw).symm
      · cases hw

theorem gives_items_self {xs : List Value} (hxs : ∀ x ∈ xs, StaysItself x)
    (hordered : ∀ x ∈ xs, x.Ordered) (n : Node (Behaviour σ)) (path : Path) (i : Nat) :
    Gives (· = xs) (items n path i xs xs) := by
  induction xs generalizing i with
  | nil =>
    rw [items]
    exact gives_pure rfl
  | cons x xs ih =>
    rw [items]
    refine (hxs x List.mem_cons_self (hordered x List.mem_cons_self) n _).bind ?_
    rintro _ rfl
    refine (ih (fun y hy => hxs y (List.mem_cons_of_mem _ hy))
      (fun y hy => hordered y (List.mem_cons_of_mem _ hy)) (i + 1)).bind ?_
    rintro _ rfl
    exact gives_pure rfl

theorem gives_entries_self {priors : Keyed Value} {es : List (String × Value)}
    (hes : ∀ e ∈ es, StaysItself e.2) (hordered : ∀ e ∈ es, e.2.Ordered)
    (hpriors : ∀ k x, (k, x) ∈ es → Keyed.get? priors k = some x)
    (child : String → Option (Step × Node (Behaviour σ))) (path : Path) :
    Gives (· = es) (entries child path priors es) := by
  induction es with
  | nil =>
    rw [entries]
    exact gives_pure rfl
  | cons e es ih =>
    obtain ⟨k, x⟩ := e
    have hrest : Gives (· = (k, x) :: es)
        (do return (k, x) :: (← entries child path priors es)) := by
      refine (ih (fun f hf => hes f (List.mem_cons_of_mem _ hf))
        (fun f hf => hordered f (List.mem_cons_of_mem _ hf))
        (fun l y hl => hpriors l y (List.mem_cons_of_mem _ hl))).bind ?_
      rintro _ rfl
      exact gives_pure rfl
    rw [entries, hpriors k x List.mem_cons_self]
    split
    · next p step m hp _ =>
      cases hp
      have hx := hordered (k, x) List.mem_cons_self
      refine (hes (k, x) List.mem_cons_self hx m (path.push step)).bind ?_
      rintro _ rfl
      exact hrest
    · exact hrest

theorem staysItself (v : Value) : StaysItself v := by
  induction v using Value.contentsInduction with
  | list xs ih =>
    intro hv σ n path
    rw [value]
    refine (gives_settle_self n path _).bind fun settled hsettled => ?_
    split
    · exact gives_pure (hsettled _ rfl)
    · next hlist =>
      cases hlist
      refine (gives_items_self ih (fun x hx => hv.of_list hx) _ path 0).bind ?_
      rintro _ rfl
      exact gives_pure rfl
    · exact gives_pure rfl
  | map es ih =>
    intro hv σ n path
    rw [value]
    refine (gives_settle_self n path _).bind fun settled hsettled => ?_
    split
    · exact gives_pure (hsettled _ rfl)
    · next hmap =>
      cases hmap
      refine (gives_entries_self ih (fun e he => hv.of_map he)
        (fun k x hx => Keyed.get?_of_mem hv.ascending hx) _ path).bind ?_
      rintro _ rfl
      exact gives_pure rfl
    · next hnot => exact absurd rfl (hnot es)
  | atom v hv =>
    intro _ σ n path
    rw [value_of_atom hv]
    refine (gives_settle_self n path v).bind fun settled hsettled => gives_pure ?_
    cases settled with
    | none => rfl
    | some w => exact hsettled w rfl

end Reconcile

/-! ## The same again -/

/-- Texts are compared, and nothing but texts. One that is found equal to another is found equal to
itself, with the same reports. -/
def SemanticEquality.IsTextual (predicate : SemanticEquality σ) : Prop :=
  ∃ compare, (predicate = fun prior proposed => pure (onTexts compare prior proposed)) ∧
    ∀ a b, (compare a b).1 = true → compare a a = compare a b

theorem SemanticEquality.isTextual_numeric : IsTextual (numeric : SemanticEquality σ) := by
  refine ⟨numericTexts, rfl, fun a b hab => ?_⟩
  by_cases hread : DecimalText.parse? (Text.trim a.toList) = none ∨
      DecimalText.parse? (Text.trim b.toList) = none
  · obtain ⟨_, hproblem⟩ := numericTexts_of_unreadable hread
    rw [hproblem] at hab
    cases hab
  · obtain ⟨hx, hy⟩ := not_or.mp hread
    obtain ⟨x, hx⟩ := Option.ne_none_iff_exists'.mp hx
    obtain ⟨y, hy⟩ := Option.ne_none_iff_exists'.mp hy
    rw [numericTexts_eq hx hy, decide_eq_true_eq] at hab
    rw [numericTexts_eq hx hy, numericTexts_eq hx hx, hab]

theorem SemanticEquality.isTextual_json : IsTextual (json : SemanticEquality σ) := by
  refine ⟨jsonTexts, rfl, fun a b hab => ?_⟩
  cases hx : Json.parse a with
  | error fault => simp [jsonTexts, hx] at hab
  | ok x =>
    cases hy : Json.parse b with
    | error fault => simp [jsonTexts, hx, hy] at hab
    | ok y =>
      rw [jsonTexts_eq hx hy] at hab ⊢
      rw [jsonTexts_eq hx hx, x.same_self, show x.same y = true from hab]

namespace Reconcile

variable {m : ReconcileM σ α} {f : α → ReconcileM σ α} {g : γ → ReconcileM σ γ} {a : α} {c : γ}
  {more : List EqualityCall}

/-- After any calls and in any world, the step gives the result and notes the same runs, and the
world stays as it is. -/
def Runs (m : ReconcileM σ α) (a : α) (more : List EqualityCall) : Prop :=
  ∀ calls world, m calls world = ((a, calls ++ more), world)

theorem runs_pure (a : α) : Runs (pure a : ReconcileM σ α) a [] :=
  fun calls world => by rw [List.append_nil]; rfl

theorem Runs.bind {f : α → ReconcileM σ γ} {more' : List EqualityCall} (hm : Runs m a more)
    (hf : Runs (f a) c more') : Runs (m >>= f) c (more ++ more') := fun calls world => by
  rw [reconcileM_bind, hm, hf, List.append_assoc]

theorem Runs.map (hm : Runs m a more) (f : α → γ) : Runs (do return f (← m)) (f a) more :=
  List.append_nil more ▸ hm.bind (runs_pure (f a))

/-- Done again to what it has given, the step gives the same and reports the same. -/
def Repeats (f : α → ReconcileM σ α) (a : α) : Prop :=
  ∃ b more more', Runs (f a) b more ∧ Runs (f b) b more' ∧
    more'.flatMap EqualityCall.diagnostics = more.flatMap EqualityCall.diagnostics

/-- What gives back its argument repeats itself. -/
theorem Repeats.of_runs (h : Runs (f a) a more) : Repeats f a := ⟨a, more, more, h, h, rfl⟩

theorem repeats_pure (a : α) : Repeats (pure : α → ReconcileM σ α) a := .of_runs (runs_pure a)

theorem Repeats.both {h : ε → ReconcileM σ ε} (pair : α → γ → ε) (hf : Repeats f a)
    (hg : Repeats g c) (hh : ∀ a c, h (pair a c) = do let b ← f a; return pair b (← g c)) :
    Repeats h (pair a c) := by
  obtain ⟨b, more, again, hrun, hagain, hsame⟩ := hf
  obtain ⟨d, more', again', hrun', hagain', hsame'⟩ := hg
  refine ⟨pair b d, more ++ more', again ++ again', ?_, ?_, ?_⟩
  · rw [hh]
    exact hrun.bind (hrun'.map (pair b))
  · rw [hh]
    exact hagain.bind (hagain'.map (pair b))
  · rw [List.flatMap_append, List.flatMap_append, hsame, hsame']

/-- What does the same as a step inside, and reports nothing else, repeats itself if that does. -/
theorem Repeats.within {h : ε → ReconcileM σ ε} {wrap : α → ε} (hf : Repeats f a)
    (hh : ∀ a b more, Runs (f a) b more → ∃ all, Runs (h (wrap a)) (wrap b) all ∧
      all.flatMap EqualityCall.diagnostics = more.flatMap EqualityCall.diagnostics) :
    Repeats h (wrap a) := by
  obtain ⟨b, more, again, hrun, hagain, hsame⟩ := hf
  obtain ⟨all, hall, hreports⟩ := hh a b more hrun
  obtain ⟨all', hall', hreports'⟩ := hh b b again hagain
  exact ⟨wrap b, all, all', hall, hall', hreports'.trans (hsame.trans hreports.symm)⟩

/-! ## Settling again -/

variable {n : Node (Behaviour σ)} {path : Path} {prior : Value}

theorem runs_settle_of_asks {predicate : SemanticEquality σ} {proposed : Value}
    {compare : String → String → Bool × Diagnostics} {equal : Bool} {reported : Diagnostics}
    (hasks : n.Asks predicate prior proposed)
    (hpredicate : predicate = fun prior proposed =>
      pure (SemanticEquality.onTexts compare prior proposed))
    (hsaid : SemanticEquality.onTexts compare prior proposed = (equal, reported)) (path : Path) :
    Runs (settle n path prior proposed)
      (if Diagnostics.hasError reported then some proposed else if equal then some prior else none)
      [⟨path, prior, proposed, equal, reported⟩] := by
  intro calls world
  rcases settle_cases n path prior proposed with ⟨hknown, _⟩ | ⟨hnot, _⟩ | ⟨_, hasks', hrun⟩
  · obtain ⟨_, _, _, hprior, hproposed⟩ := hasks
    rw [hprior, hproposed] at hknown
    cases hknown
  · exact absurd hasks (hnot predicate)
  · have hworld : predicate prior proposed world = ((equal, reported), world) := by
      rw [hpredicate, ← hsaid]
      rfl
    rw [hrun, hasks'.unique hasks, hworld]
    rfl

/-- Nothing is settled, or the proposed value or the prior one. The prior one is settled again if it
is proposed then. -/
theorem runs_settle_cases (hn : n.EveryPredicate SemanticEquality.IsTextual) (path : Path)
    (prior proposed : Value) : ∃ more, Runs (settle n path prior proposed) none more ∨
      Runs (settle n path prior proposed) (some proposed) more ∨
      Runs (settle n path prior proposed) (some prior) more ∧ ∃ again,
        Runs (settle n path prior prior) (some prior) again ∧
          again.flatMap EqualityCall.diagnostics = more.flatMap EqualityCall.diagnostics := by
  rcases settle_cases n path prior proposed with ⟨_, hsettle⟩ | ⟨_, hsettle⟩ | ⟨_, hasks, _⟩
  · rw [hsettle]
    exact ⟨[], .inr (.inl (runs_pure _))⟩
  · rw [hsettle]
    exact ⟨[], .inl (runs_pure _)⟩
  · obtain ⟨compare, hcompare, hsame⟩ := hn.of_asks hasks
    rcases hsaid : SemanticEquality.onTexts compare prior proposed with ⟨equal, reported⟩
    have hrun := runs_settle_of_asks hasks hcompare hsaid path
    cases hfailed : Diagnostics.hasError reported with
    | true =>
      rw [if_pos hfailed] at hrun
      exact ⟨_, .inr (.inl hrun)⟩
    | false =>
      rw [hfailed] at hrun
      cases equal with
      | false => exact ⟨_, .inl hrun⟩
      | true =>
        have hequal : (SemanticEquality.onTexts compare prior proposed).1 = true := by rw [hsaid]
        obtain ⟨a, b, rfl, rfl⟩ := SemanticEquality.exists_of_onTexts hequal
        -- the same predicate is asked about the prior text and itself
        obtain ⟨_, hn, hpredicate, hprior, _⟩ := hasks
        have hagain := runs_settle_of_asks ⟨_, hn, hpredicate, hprior, hprior⟩ hcompare
          ((hsame a b hequal).trans hsaid) path
        rw [hfailed] at hagain
        exact ⟨_, .inr (.inr ⟨hrun, _, hagain, rfl⟩)⟩

theorem runs_settle_of_parts (hn : n.EveryPredicate SemanticEquality.IsTextual) (path : Path)
    (prior : Value) :
    (∀ v, v.isAtom = false → Runs (settle n path prior v) (some v) []) ∨
    ∀ v, v.isAtom = false → ∃ more, Runs (settle n path prior v) none more ∧
      more.flatMap EqualityCall.diagnostics = [] := by
  have hparts (v : Value) (hv : v.isAtom = false) : v.isKnown = true := by
    cases v <;> cases hv <;> rfl
  cases n with
  | attr a =>
    cases hprior : prior.isKnown with
    | false =>
      refine .inl fun v _ => ?_
      rw [settle, hprior]
      exact runs_pure _
    | true =>
      refine .inr fun v hv => ?_
      cases hpredicate : a.behaviour.semanticEquality with
      | none =>
        refine ⟨[], ?_, rfl⟩
        rw [settle, hprior, hparts v hv, hpredicate]
        exact runs_pure _
      | some predicate =>
        have hasks : (Node.attr a).Asks predicate prior v :=
          ⟨a, rfl, hpredicate, hprior, hparts v hv⟩
        obtain ⟨compare, hcompare, _⟩ := hn.of_asks hasks
        -- what the list or the map holds makes no difference: only texts are compared
        have hunequal : SemanticEquality.onTexts compare prior v = (false, []) := by
          cases v <;> cases hv <;> cases prior <;> rfl
        exact ⟨_, runs_settle_of_asks hasks hcompare hunequal path, rfl⟩
  | block _ | nestedBlock _ | nestedObject _ => exact .inr fun _ _ => ⟨[], runs_pure _, rfl⟩

/-- What is settled is given, whatever is nested. -/
theorem runs_value_of_settle {v w : Value} (h : Runs (settle n path prior v) (some w) more) :
    Runs (value n path prior v) w more := by
  cases v
  case list xs =>
    rw [value, ← List.append_nil more]
    refine h.bind ?_
    exact runs_pure w
  case map es =>
    rw [value, ← List.append_nil more]
    refine h.bind ?_
    exact runs_pure w
  all_goals
    rw [value_of_atom rfl]
    exact h.map (·.getD _)

/-! ## Values again -/

/-- Where texts are all that is compared, reconciling the value repeats itself. -/
def Resettles (v : Value) : Prop :=
  ∀ {σ : Type} (n : Node (Behaviour σ)), n.EveryPredicate SemanticEquality.IsTextual →
    ∀ path prior, Repeats (value n path prior) v

theorem repeats_items (hn : n.EveryPredicate SemanticEquality.IsTextual) (path : Path) (i : Nat)
    {xs : List Value} (hxs : ∀ x ∈ xs, Resettles x) (priors : List Value) :
    Repeats (items n path i priors) xs := by
  induction xs generalizing i priors with
  | nil =>
    have hrun : Runs (items n path i priors []) [] [] := by
      rw [items]
      exact runs_pure _
    exact .of_runs hrun
  | cons x xs ih =>
    cases priors with
    | nil =>
      have hrun : Runs (items n path i [] (x :: xs)) (x :: xs) [] := by
        rw [items]
        · exact runs_pure _
        · exact List.cons_ne_nil x xs
      exact .of_runs hrun
    | cons p ps =>
      have hitem := hxs x List.mem_cons_self n hn (path.index i) p
      have hrest := ih (i + 1) (fun z hz => hxs z (List.mem_cons_of_mem _ hz)) ps
      exact .both (· :: ·) hitem hrest fun y ys => by rw [items]

theorem repeats_entries (hn : n.EveryPredicate SemanticEquality.IsTextual) (path : Path)
    (priors : Keyed Value) {es : List (String × Value)} (hes : ∀ e ∈ es, Resettles e.2) :
    Repeats (entries (entryNode n) path priors) es := by
  induction es with
  | nil =>
    have hrun : Runs (entries (entryNode n) path priors []) [] [] := by
      rw [entries]
      exact runs_pure _
    exact .of_runs hrun
  | cons e es ih =>
    obtain ⟨k, x⟩ := e
    have hrest := ih fun f hf => hes f (List.mem_cons_of_mem _ hf)
    by_cases hpair : ∃ p step m, Keyed.get? priors k = some p ∧ entryNode n k = some (step, m)
    · obtain ⟨p, step, m, hp, hm⟩ := hpair
      have hbelow : n.below? (.entry k) = some m := by rw [Node.below?, hm, Option.map_some]
      have hentry := hes (k, x) List.mem_cons_self m (hn.below hbelow) (path.push step) p
      exact .both (fun y fs => (k, y) :: fs) hentry hrest fun y fs => by
        simp only [entries, hp, hm]
    · refine .both (fun y fs => (k, y) :: fs) (repeats_pure x) hrest fun y fs => ?_
      rw [entries]
      split
      · next p step m hp hm => exact absurd ⟨p, step, m, hp, hm⟩ hpair
      · rfl

/-- Where nothing is settled or reported for a list or a map, what is done to its contents decides
whether reconciling it repeats itself. -/
theorem Repeats.opened {wrap : α → Value} (hf : Repeats f a)
    (hopen : ∀ v, v.isAtom = false → ∃ more, Runs (settle n path prior v) none more ∧
      more.flatMap EqualityCall.diagnostics = [])
    (hvalue : ∀ a, (wrap a).isAtom = false ∧ ∃ rest,
      value n path prior (wrap a) = settle n path prior (wrap a) >>= rest ∧
        rest none = do return wrap (← f a)) :
    Repeats (value n path prior) (wrap a) := by
  refine hf.within fun a b more hrun => ?_
  obtain ⟨hatom, rest, hvalue, hrest⟩ := hvalue a
  obtain ⟨quiet, hsettle, hquiet⟩ := hopen (wrap a) hatom
  refine ⟨quiet ++ more, ?_, by rw [List.flatMap_append, hquiet, List.nil_append]⟩
  rw [hvalue]
  exact hsettle.bind (hrest ▸ hrun.map wrap)

theorem resettles (v : Value) : Resettles v := by
  induction v using Value.contentsInduction with
  | list xs ih =>
    intro σ n hn path prior
    rcases runs_settle_of_parts hn path prior with hsettled | hopen
    · exact .of_runs (runs_value_of_settle (hsettled _ rfl))
    by_cases hpair : ∃ element priors, itemNode? n = some element ∧ prior = .list priors
    · obtain ⟨element, priors, helement, rfl⟩ := hpair
      have hitems := repeats_items (hn.below (b := .item 0) helement) path 0 ih priors
      exact hitems.opened hopen fun xs => ⟨rfl, _, by rw [value], by rw [helement]⟩
    · refine (repeats_pure xs).opened hopen fun xs => ⟨rfl, _, by rw [value], ?_⟩
      split
      · next h => cases h
      · next helement => exact absurd ⟨_, _, helement, rfl⟩ hpair
      · rfl
  | map es ih =>
    intro σ n hn path prior
    rcases runs_settle_of_parts hn path prior with hsettled | hopen
    · exact .of_runs (runs_value_of_settle (hsettled _ rfl))
    by_cases hpair : ∃ priors, prior = .map priors
    · obtain ⟨priors, rfl⟩ := hpair
      have hentries := repeats_entries hn path priors ih
      exact hentries.opened hopen fun es => ⟨rfl, _, by rw [value], rfl⟩
    · refine (repeats_pure es).opened hopen fun es => ⟨rfl, _, by rw [value], ?_⟩
      split
      · next h => cases h
      · exact absurd ⟨_, rfl⟩ hpair
      · rfl
  | atom v hv =>
    intro σ n hn path prior
    obtain ⟨more, hrun | hrun | ⟨hrun, again, hagain, hsame⟩⟩ := runs_settle_cases hn path prior v
    · have hvalue : Runs (value n path prior v) v more := by
        rw [value_of_atom hv]
        exact hrun.map (·.getD v)
      exact .of_runs hvalue
    · exact .of_runs (runs_value_of_settle hrun)
    · exact ⟨prior, more, again, runs_value_of_settle hrun, runs_value_of_settle hagain, hsame⟩

end Reconcile

/-! ## Stability -/

/-- Reconciling a value with itself gives the value. Where the texts of numbers and of documents are
all that is compared, reconciling what was given with the same prior value gives it again, and
reports the same. -/
theorem Schema.reconcile_stable (s : ActiveSchema σ) :
    (∀ v : Value, v.Ordered → ∀ world, (s.reconcile v v world).1.value = v) ∧
    (s.EveryPredicate (fun predicate => predicate = .numeric ∨ predicate = .json) →
      ∀ prior proposed world world',
        let once := (s.reconcile prior proposed world).1
        let again := (s.reconcile prior once.value world').1
        again.value = once.value ∧ again.diagnostics = once.diagnostics) := by
  refine ⟨fun v hv world => Reconcile.staysItself v hv (.block s.root) .root [] world, ?_⟩
  intro hs prior proposed world world' once again
  have htextual : (Node.block s.root).EveryPredicate SemanticEquality.IsTextual := by
    intro b hb predicate hpredicate
    rcases hs b hb predicate hpredicate with rfl | rfl
    · exact SemanticEquality.isTextual_numeric
    · exact SemanticEquality.isTextual_json
  obtain ⟨w, more, more', hrun, hagain, hsame⟩ :=
    Reconcile.resettles proposed (.block s.root) htextual .root prior
  have honce : once = ⟨w, more⟩ := by
    change Reconciled.mk _ _ = _
    rw [hrun]
    rfl
  have hagain : again = ⟨w, more'⟩ := by
    change Reconciled.mk _ _ = _
    rw [honce, hagain]
    rfl
  rw [hagain, honce]
  exact ⟨rfl, hsame⟩

/-- Quotas with an amount each, and a policy written as a document. -/
def quotas : ActiveSchema Nat :=
  let amount : Attribute (Behaviour Nat) :=
    ⟨.string, .optionalOnly, none, none, none, ⟨[], some .numeric⟩⟩
  let policy : Attribute (Behaviour Nat) :=
    ⟨.string, .optionalOnly, none, none, none, ⟨[], some .json⟩⟩
  let each : Attribute (Behaviour Nat) :=
    ⟨.dynamic, .optionalOnly, none, some ⟨.map, [("amount", amount)]⟩, none, ⟨[], none⟩⟩
  ⟨0, ⟨[("policy", policy), ("quotas", each)], [], none⟩⟩

/-- A quota of an amount. -/
def quota (amount : String) : Value := .map [("amount", .string amount)]

/-- Policy and amounts that were there before. -/
def givenQuotas : Value :=
  .map [("policy", .string "[1]"),
    ("quotas", .map [("disk", quota "1.0"), ("host", quota "many")])]

/-- The policy and the first amount are kept as they were. The second amount cannot be compared, and
there is no third one yet. -/
theorem quotas_stable :
    let proposed : Value := .map [("policy", .string "[ 1 ]"),
      ("quotas", .map [("disk", quota "1"), ("host", quota "2"), ("port", quota "3")])]
    let w : Value := .map [("policy", .string "[1]"),
      ("quotas", .map [("disk", quota "1.0"), ("host", quota "2"), ("port", quota "3")])]
    let once := (quotas.reconcile givenQuotas proposed 0).1
    let again := (quotas.reconcile givenQuotas once.value 1).1
    (givenQuotas.Ordered ∧ (quotas.reconcile givenQuotas givenQuotas 0).1.value = givenQuotas) ∧
    quotas.EveryPredicate (fun predicate => predicate = .numeric ∨ predicate = .json) ∧
      once.value.same w = true ∧ once.diagnostics.length = 1 ∧
      again.value = once.value ∧ again.diagnostics = once.diagnostics := by
  intro proposed w once again
  have hordered : givenQuotas.Ordered := by
    have hquota (amount : String) : (quota amount).Ordered := Value.ordered_entry.mpr (.atom rfl)
    have heach : (Value.map [("disk", quota "1.0"), ("host", quota "many")]).Ordered :=
      Value.ordered_of_keys (by decide) (by simp [hquota])
    exact Value.ordered_of_keys (by decide) (by simp [heach])
  have hpredicates : quotas.EveryPredicate fun predicate =>
      predicate = .numeric ∨ predicate = .json := by
    have hbehaviours : quotas.behaviours =
        [⟨[], some .json⟩, ⟨[], none⟩, ⟨[], some .numeric⟩] := rfl
    unfold Schema.EveryPredicate
    rw [hbehaviours]
    simp
  obtain ⟨hself, hagain⟩ := Schema.reconcile_stable quotas
  refine ⟨⟨hordered, hself _ hordered 0⟩, hpredicates, ?_, ?_, hagain hpredicates _ _ 0 1⟩
  · decide +kernel
  · decide +kernel

end ProviderKit
