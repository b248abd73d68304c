import Mathlib.Data.List.Perm.Subperm
import Mathlib.Data.List.Sort
import ProviderKit.Proofs.Schema.Mismatches

-- The visits of a walk that changes nothing. In both orders it comes to every place of the value,
-- once, and finds the same there. What lies below a place is visited after it in one order and
-- before it in the other, and neighbours follow each other alike.

namespace ProviderKit

variable {β : Type}

/-! ## Visits -/

/-- One visit: the path, what the schema has there, and the value. -/
structure Visited (β : Type) where
  path : Path
  node : Except Fault (Node β)
  value : Value

/-- A visitor that leaves every value as it is, and notes its visits. -/
def noting : Visit β (ExceptT Fault (StateM (List (Visited β)))) := fun path node v => do
  modify (· ++ [⟨path, node, v⟩])
  return v

/-- The visits of a walk that changes nothing, from the first to the last. -/
def Schema.visits (s : Schema β) (order : WalkOrder) (v : Value) : List (Visited β) :=
  ((s.transform order noting v).run []).2

/-- What a walk finds at a place below a position. -/
def Position.visitAt? : Path → Position β → Value → List Branch → Option (Visited β)
  | path, position, v, [] => some ⟨path, position.node path, v⟩
  | path, position, v, b :: place =>
    (v.part? b).bind fun x => (position.child? x b).bind fun c =>
      visitAt? (path.push c.step) c.position x place

/-- What a walk finds at a place. -/
def Schema.visitAt? (s : Schema β) (v : Value) (place : List Branch) : Option (Visited β) :=
  Position.visitAt? .root (.described (.block s.root)) v place

/-- What is found at a place is what stands there, by a path that names the place. -/
theorem Position.spells_of_visitAt? {path : Path} {position : Position β} {v : Value}
    {place : List Branch} {visit : Visited β}
    (h : Position.visitAt? path position v place = some visit) :
    ∃ steps, visit.path.steps = path.steps ++ steps ∧ v.Spells place steps ∧
      v.at? place = some visit.value := by
  induction place generalizing path position v with
  | nil =>
    cases h
    exact ⟨[], (List.append_nil _).symm, rfl, rfl⟩
  | cons b place ih =>
    obtain ⟨x, hx, h⟩ := Option.bind_eq_some_iff.mp h
    obtain ⟨c, hc, h⟩ := Option.bind_eq_some_iff.mp h
    obtain ⟨steps, hsteps, hspells, hvalue⟩ := ih h
    refine ⟨c.step :: steps, ?_, ⟨x, c.step, steps, hx, names_of_child? hc, hspells, rfl⟩, ?_⟩
    · rw [hsteps, Path.push_steps, List.append_assoc]
      rfl
    · rw [Value.at?, hx]
      exact hvalue

theorem Schema.spells_of_visitAt? {s : Schema β} {v : Value} {place : List Branch}
    {visit : Visited β} (h : s.visitAt? v place = some visit) :
    v.Spells place visit.path.steps ∧ v.at? place = some visit.value := by
  obtain ⟨steps, hsteps, hspells, hvalue⟩ := Position.spells_of_visitAt? h
  rw [show visit.path.steps = steps from hsteps]
  exact ⟨hspells, hvalue⟩

/-! ## The places of a value -/

/-- A place stands before the places below it, or after them. -/
def WalkOrder.around (order : WalkOrder) (below : List (List Branch)) : List (List Branch) :=
  match order with
  | .topDown => [] :: below
  | .bottomUp => below ++ [[]]

mutual
/-- The places of a value, in the order of a walk. -/
def Value.places (order : WalkOrder) : Value → List (List Branch)
  | .list xs => order.around (itemPlaces order 0 xs)
  | .map es => order.around (entryPlaces order es)
  | _ => order.around []
def itemPlaces (order : WalkOrder) : Nat → List Value → List (List Branch)
  | _, [] => []
  | i, x :: xs => (x.places order).map (.item i :: ·) ++ itemPlaces order (i + 1) xs
def entryPlaces (order : WalkOrder) : List (String × Value) → List (List Branch)
  | [] => []
  | (k, x) :: es => (x.places order).map (.entry k :: ·) ++ entryPlaces order es
end

/-- The places below the value itself. -/
def Value.placesBelow (order : WalkOrder) : Value → List (List Branch)
  | .list xs => itemPlaces order 0 xs
  | .map es => entryPlaces order es
  | _ => []

theorem Value.places_eq (order : WalkOrder) (v : Value) :
    v.places order = order.around (v.placesBelow order) := by
  cases v <;> rfl

section

variable {order : WalkOrder} {place : List Branch} {v : Value}

theorem WalkOrder.mem_around {below : List (List Branch)} :
    place ∈ order.around below ↔ place = [] ∨ place ∈ below := by
  cases order <;> simp [around, or_comm]

theorem mem_itemPlaces {i : Nat} {xs : List Value} : place ∈ itemPlaces order i xs ↔
    ∃ (j : Nat) (x : Value) (rest : List Branch),
      xs[j]? = some x ∧ rest ∈ x.places order ∧ place = .item (i + j) :: rest := by
  induction xs generalizing i with
  | nil => simp [itemPlaces]
  | cons x xs ih =>
    rw [itemPlaces, List.mem_append, List.mem_map, ih]
    constructor
    · rintro (⟨rest, hrest, rfl⟩ | ⟨j, y, rest, hy, hrest, rfl⟩)
      · exact ⟨0, x, rest, rfl, hrest, rfl⟩
      · exact ⟨j + 1, y, rest, hy, hrest, by rw [Nat.add_assoc, Nat.add_comm 1 j]⟩
    · rintro ⟨j, y, rest, hy, hrest, rfl⟩
      cases j with
      | zero =>
        cases hy
        exact .inl ⟨rest, hrest, rfl⟩
      | succ j => exact .inr ⟨j, y, rest, hy, hrest, by rw [Nat.add_assoc, Nat.add_comm 1 j]⟩

theorem mem_entryPlaces {es : List (String × Value)} : place ∈ entryPlaces order es ↔
    ∃ e ∈ es, ∃ rest ∈ e.2.places order, place = .entry e.1 :: rest := by
  induction es with
  | nil => simp [entryPlaces]
  | cons e es ih =>
    rw [entryPlaces, List.mem_append, List.mem_map, ih]
    simp [eq_comm]

/-- Below a value are the places of its parts. -/
theorem Value.mem_placesBelow (hv : v.Ordered) : place ∈ v.placesBelow order ↔
    ∃ b x rest, v.part? b = some x ∧ rest ∈ x.places order ∧ place = b :: rest := by
  cases v
  case list xs =>
    rw [placesBelow, mem_itemPlaces]
    constructor
    · rintro ⟨j, x, rest, hx, hrest, rfl⟩
      exact ⟨.item (0 + j), x, rest, by rwa [Nat.zero_add], hrest, rfl⟩
    · rintro ⟨b, x, rest, hx, hrest, rfl⟩
      cases b with
      | entry k => cases hx
      | item j => exact ⟨j, x, rest, hx, hrest, by rw [Nat.zero_add]⟩
  case map es =>
    rw [placesBelow, mem_entryPlaces]
    constructor
    · rintro ⟨e, he, rest, hrest, rfl⟩
      exact ⟨.entry e.1, e.2, rest, Keyed.get?_of_mem hv.ascending he, hrest, rfl⟩
    · rintro ⟨b, x, rest, hx, hrest, rfl⟩
      cases b with
      | item j => cases hx
      | entry k => exact ⟨(k, x), Keyed.mem_of_get? hx, rest, hrest, rfl⟩
  all_goals
    constructor
    · intro h
      cases h
    · rintro ⟨b, x, rest, hx, _⟩
      rw [part?_of_atom rfl] at hx
      cases hx

/-- The places of a value are those where something stands. -/
theorem Value.mem_places (hv : v.Ordered) :
    place ∈ v.places order ↔ (v.at? place).isSome = true := by
  induction place generalizing v with
  | nil => simp [places_eq, WalkOrder.mem_around, at?]
  | cons b place ih =>
    rw [places_eq, WalkOrder.mem_around, mem_placesBelow hv, at?]
    cases hx : v.part? b with
    | none => simp [hx]
    | some x => simp [hx, ih (hv.part hx)]

end

/-! ## The order of the places -/

theorem Branch.Before.irrefl (b : Branch) : ¬ b.Before b := by
  intro h
  cases h with
  | entry h => exact String.lt_irrefl _ h
  | item h => exact Nat.lt_irrefl _ h

theorem Branch.Before.asymm {b c : Branch} (h : b.Before c) : ¬ c.Before b := by
  intro h'
  cases h with
  | entry h =>
    cases h' with
    | entry h' => exact String.lt_irrefl _ (String.lt_trans h h')
  | item h =>
    cases h' with
    | item h' => omega

/-- One place comes before another in a walk: at a branch that the other passes by, or right above
or below it. -/
inductive WalkOrder.Precedes : WalkOrder → List Branch → List Branch → Prop
  | above {b : Branch} {place : List Branch} : Precedes .topDown [] (b :: place)
  | beneath {b : Branch} {place : List Branch} : Precedes .bottomUp (b :: place) []
  | apart {order : WalkOrder} {b c : Branch} {p q : List Branch} : b.Before c →
      Precedes order (b :: p) (c :: q)
  | under {order : WalkOrder} {b : Branch} {p q : List Branch} : Precedes order p q →
      Precedes order (b :: p) (b :: q)

namespace WalkOrder

variable {order : WalkOrder} {p q : List Branch}

theorem Precedes.asymm (h : order.Precedes p q) : ¬ order.Precedes q p := by
  intro h'
  induction h with
  | above => cases h'
  | beneath => cases h'
  | apart hbc =>
    cases h' with
    | apart hcb => exact hbc.asymm hcb
    | under _ => exact Branch.Before.irrefl _ hbc
  | under _ ih =>
    cases h' with
    | apart hbb => exact Branch.Before.irrefl _ hbb
    | under h' => exact ih h'

theorem Precedes.append (h : order.Precedes p q) (place : List Branch) :
    order.Precedes (place ++ p) (place ++ q) := by
  induction place with
  | nil => exact h
  | cons b place ih => exact .under ih

theorem pairwise_around {below : List (List Branch)} (h : below.Pairwise order.Precedes)
    (hbelow : ∀ place ∈ below, place ≠ []) : (order.around below).Pairwise order.Precedes := by
  cases order with
  | topDown =>
    refine List.pairwise_cons.mpr ⟨fun place hplace => ?_, h⟩
    obtain ⟨b, rest, rfl⟩ := List.exists_cons_of_ne_nil (hbelow place hplace)
    exact .above
  | bottomUp =>
    refine List.pairwise_append.mpr ⟨h, List.pairwise_singleton _ _, fun place hplace q hq => ?_⟩
    obtain ⟨b, rest, rfl⟩ := List.exists_cons_of_ne_nil (hbelow place hplace)
    rw [List.mem_singleton.mp hq]
    exact .beneath

/-- The places below one branch come in their own order. -/
theorem pairwise_under {places : List (List Branch)} (h : places.Pairwise order.Precedes)
    (b : Branch) : (places.map (b :: ·)).Pairwise order.Precedes :=
  List.pairwise_map.mpr (h.imp .under)

end WalkOrder

section

variable {order : WalkOrder}

theorem pairwise_itemPlaces {i : Nat} {xs : List Value}
    (h : ∀ x ∈ xs, (x.places order).Pairwise order.Precedes) :
    (itemPlaces order i xs).Pairwise order.Precedes := by
  induction xs generalizing i with
  | nil => exact .nil
  | cons x xs ih =>
    obtain ⟨hx, hxs⟩ := List.forall_mem_cons.mp h
    refine List.pairwise_append.mpr ⟨order.pairwise_under hx _, ih hxs, fun p hp q hq => ?_⟩
    obtain ⟨rest, _, rfl⟩ := List.mem_map.mp hp
    obtain ⟨j, y, rest', _, _, rfl⟩ := mem_itemPlaces.mp hq
    exact .apart (.item (by omega))

theorem pairwise_entryPlaces {es : List (String × Value)} (hes : Keyed.Ascending es)
    (h : ∀ e ∈ es, (e.2.places order).Pairwise order.Precedes) :
    (entryPlaces order es).Pairwise order.Precedes := by
  induction es with
  | nil => exact .nil
  | cons e es ih =>
    obtain ⟨hlt, hes⟩ := List.pairwise_cons.mp hes
    obtain ⟨he, hrest⟩ := List.forall_mem_cons.mp h
    refine List.pairwise_append.mpr ⟨order.pairwise_under he _, ih hes hrest, fun p hp q hq => ?_⟩
    obtain ⟨rest, _, rfl⟩ := List.mem_map.mp hp
    obtain ⟨f, hf, rest', _, rfl⟩ := mem_entryPlaces.mp hq
    exact .apart (.entry (hlt f hf))

/-- The places of a value are in the order of the walk. -/
theorem Value.pairwise_places {v : Value} (hv : v.Ordered) (order : WalkOrder) :
    (v.places order).Pairwise order.Precedes := by
  have hne : ∀ {u : Value}, u.Ordered → ∀ place ∈ u.placesBelow order, place ≠ [] := by
    intro u hu place hplace
    obtain ⟨b, x, rest, _, _, rfl⟩ := (mem_placesBelow hu).mp hplace
    exact List.cons_ne_nil b rest
  induction v using Value.contentsInduction with
  | atom v hatom =>
    have hnone : v.placesBelow order = [] := by
      cases v <;> first | rfl | cases hatom
    rw [places_eq, hnone]
    exact order.pairwise_around .nil nofun
  | list xs ih =>
    rw [places_eq]
    exact order.pairwise_around (pairwise_itemPlaces fun x hx => ih x hx (hv.of_list hx)) (hne hv)
  | map es ih =>
    have hes := pairwise_entryPlaces hv.ascending fun e he => ih e he (hv.of_map he)
    rw [places_eq]
    exact order.pairwise_around hes (hne hv)

end

namespace WalkOrder

variable {order : WalkOrder}

instance : Std.Asymm order.Precedes := ⟨fun _ _ => Precedes.asymm⟩

/-- In a list that is in the order of a walk, places follow each other as the order says. -/
theorem sublist_iff {places : List (List Branch)} (h : places.Pairwise order.Precedes)
    {p q : List Branch} :
    [p, q].Sublist places ↔ p ∈ places ∧ q ∈ places ∧ order.Precedes p q := by
  constructor
  · intro hsub
    exact ⟨hsub.subset (by simp), hsub.subset (by simp),
      List.pairwise_iff_forall_sublist.mp h hsub⟩
  · rintro ⟨hp, hq, hpq⟩
    have hne : p ≠ q := by
      rintro rfl
      exact hpq.asymm hpq
    have hsub : [p, q].Subperm places := List.Nodup.subperm (by simpa using hne) (by simp [hp, hq])
    exact List.sublist_of_subperm_of_pairwise hsub (List.pairwise_pair.mpr hpq) h

/-- Of the places right below one, the one at the earlier branch comes first, in both orders. -/
theorem precedes_siblings_iff {place : List Branch} {b c : Branch} :
    order.Precedes (place ++ [b]) (place ++ [c]) ↔ b.Before c := by
  constructor
  · intro h
    induction place with
    | nil =>
      cases h with
      | apart hbc => exact hbc
      | under h => cases h
    | cons d place ih =>
      cases h with
      | apart hdd => exact absurd hdd (Branch.Before.irrefl d)
      | under h => exact ih h
  · intro h
    exact Precedes.append (.apart h) place

end WalkOrder

/-! ## What a walk notes -/

/-- The walk ends with `a`, and on the way notes these visits. -/
def Notes {α : Type} (walk : ExceptT Fault (StateM (List (Visited β))) α) (a : α)
    (noted : List (Visited β)) : Prop :=
  ∀ before, walk.run before = (.ok a, before ++ noted)

section

variable {order : WalkOrder} {path : Path} {position : Position β} {v : Value}
  {walk : Path → Position β → Value → ExceptT Fault (StateM (List (Visited β))) Value}

theorem notes_pure {α : Type} (a : α) : Notes (β := β) (pure a) a [] := by
  intro before
  rw [List.append_nil]
  rfl

theorem Notes.bind {α γ : Type} {first : ExceptT Fault (StateM (List (Visited β))) α}
    {rest : α → ExceptT Fault (StateM (List (Visited β))) γ} {a : α} {c : γ}
    {noted noted' : List (Visited β)} (hfirst : Notes first a noted)
    (hrest : Notes (rest a) c noted') : Notes (first >>= rest) c (noted ++ noted') := by
  intro before
  have hrun (k : Except Fault α → StateM (List (Visited β)) (Except Fault γ)) :
      (first.run >>= k) before = k (first.run before).1 (first.run before).2 := rfl
  rw [ExceptT.run_bind, hrun, hfirst before, ← List.append_assoc]
  exact hrest (before ++ noted)

theorem Notes.map {α γ : Type} {first : ExceptT Fault (StateM (List (Visited β))) α} {a : α}
    {noted : List (Visited β)} (h : Notes first a noted) (f : α → γ) :
    Notes (do return f (← first)) (f a) noted := by
  have hmap : Notes (first >>= fun b => pure (f b)) (f a) (noted ++ []) :=
    h.bind (notes_pure (f a))
  rwa [List.append_nil] at hmap

theorem notes_noting (path : Path) (node : Except Fault (Node β)) (v : Value) :
    Notes (noting path node v) v [⟨path, node, v⟩] := fun _ => rfl

/-- The walk ends with `a`, and visits what is found at these places. -/
def NotesAt {α : Type} (walk : ExceptT Fault (StateM (List (Visited β))) α) (a : α)
    (places : List (List Branch)) (found : List Branch → Option (Visited β)) : Prop :=
  ∃ noted, Notes walk a noted ∧ places.map found = noted.map some

theorem NotesAt.bind {α γ : Type} {first : ExceptT Fault (StateM (List (Visited β))) α}
    {rest : α → ExceptT Fault (StateM (List (Visited β))) γ} {a : α} {c : γ}
    {places places' : List (List Branch)} {found : List Branch → Option (Visited β)}
    (hfirst : NotesAt first a places found) (hrest : NotesAt (rest a) c places' found) :
    NotesAt (first >>= rest) c (places ++ places') found := by
  obtain ⟨noted, hnotes, hfound⟩ := hfirst
  obtain ⟨noted', hnotes', hfound'⟩ := hrest
  exact ⟨noted ++ noted', hnotes.bind hnotes', by simp [hfound, hfound']⟩

theorem NotesAt.map {α γ : Type} {first : ExceptT Fault (StateM (List (Visited β))) α} {a : α}
    {places : List (List Branch)} {found : List Branch → Option (Visited β)}
    (h : NotesAt first a places found) (f : α → γ) :
    NotesAt (do return f (← first)) (f a) places found := by
  obtain ⟨noted, hnotes, hfound⟩ := h
  exact ⟨noted, hnotes.map f, hfound⟩

/-- What is visited in a part is visited in the whole, at the places under its branch. -/
theorem NotesAt.under {α : Type} {first : ExceptT Fault (StateM (List (Visited β))) α} {a : α}
    {places : List (List Branch)} {found inner : List Branch → Option (Visited β)} {b : Branch}
    (h : NotesAt first a places inner) (hfound : ∀ place, found (b :: place) = inner place) :
    NotesAt first a (places.map (b :: ·)) found := by
  obtain ⟨noted, hnotes, hinner⟩ := h
  refine ⟨noted, hnotes, ?_⟩
  rw [List.map_map, ← hinner]
  exact List.map_congr_left fun place _ => hfound place

theorem notesAt_walkItems {child : Nat → Value → Position.Child β} {i : Nat} {xs : List Value}
    {found : List Branch → Option (Visited β)}
    (h : ∀ (j : Nat) x, xs[j]? = some x →
      NotesAt (walk (path.push (child (i + j) x).step) (child (i + j) x).position x) x
        (x.places order) fun place => found (.item (i + j) :: place)) :
    NotesAt (walkItems walk path child i xs) xs (itemPlaces order i xs) found := by
  induction xs generalizing i with
  | nil => exact ⟨[], notes_pure [], rfl⟩
  | cons x xs ih =>
    have hrest := ih (i := i + 1) fun j y hy => by
      have hj := h (j + 1) y hy
      rwa [Nat.add_comm j 1, ← Nat.add_assoc] at hj
    exact ((h 0 x rfl).under fun _ => rfl).bind (hrest.map (x :: ·))

theorem notesAt_walkEntries {child : String → Position.Child β} {es : List (String × Value)}
    {found : List Branch → Option (Visited β)}
    (h : ∀ e ∈ es,
      NotesAt (walk (path.push (child e.1).step) (child e.1).position e.2) e.2
        (e.2.places order) fun place => found (.entry e.1 :: place)) :
    NotesAt (walkEntries walk path child es) es (entryPlaces order es) found := by
  induction es with
  | nil => exact ⟨[], notes_pure [], rfl⟩
  | cons e es ih =>
    have hrest := ih fun f hf => h f (List.mem_cons_of_mem _ hf)
    exact ((h e List.mem_cons_self).under fun _ => rfl).bind (hrest.map (e :: ·))

/-- Below a value, its parts are visited one after the other. -/
theorem notesAt_walkBelow (hv : v.Ordered) (hshape : Rebuilds checking path position v v)
    (h : ∀ b x c, v.part? b = some x → position.child? x b = some c →
      Rebuilds checking (path.push c.step) c.position x x →
      NotesAt (walk (path.push c.step) c.position x) x (x.places order)
        (Position.visitAt? (path.push c.step) c.position x)) :
    NotesAt (walkBelow walk path position v) v (v.placesBelow order)
      (Position.visitAt? path position v) := by
  obtain ⟨u, hu, hbelow⟩ := hshape
  cases hu
  -- What is found under a branch is what is found in the part that stands there.
  have hpart : ∀ b x c, v.part? b = some x → position.child? x b = some c →
      Rebuilds checking (path.push c.step) c.position x x →
      NotesAt (walk (path.push c.step) c.position x) x (x.places order)
        fun place => Position.visitAt? path position v (b :: place) := by
    intro b x c hx hc hshape
    simpa [Position.visitAt?, hx, hc] using h b x c hx hc hshape
  cases v
  case list xs =>
    obtain ⟨ys, child, hys, hc, hitems⟩ := rebuildsBelow_of_list_iff.mp hbelow
    cases hys
    have hchild : ∀ j x, position.child? x (.item j) = some (child j x) := by
      intro j x
      rw [Position.child?, hc, Option.map_some]
    simp only [walkBelow, hc]
    refine (notesAt_walkItems fun j x hx => ?_).map Value.list
    rw [rebuildsItems_self_iff] at hitems
    have hitem := hitems j x hx
    rw [Nat.zero_add] at hitem ⊢
    exact hpart (.item j) x _ hx (hchild j x) hitem
  case map es =>
    obtain ⟨fs, child, hfs, hc, hentries⟩ := rebuildsBelow_of_map_iff.mp hbelow
    cases hfs
    simp only [walkBelow, hc]
    refine (notesAt_walkEntries fun e he => ?_).map Value.map
    rw [rebuildsEntries_self_iff] at hentries
    have hchild : position.child? e.2 (.entry e.1) = some (child e.1) := by
      rw [Position.child?, hc, Option.map_some]
    exact hpart (.entry e.1) e.2 _ (Keyed.get?_of_mem hv.ascending he) hchild (hentries e he)
  case null | unknown => exact ⟨[], notes_pure _, rfl⟩
  all_goals
    obtain ⟨_, hdemand⟩ := (rebuildsBelow_of_atom_iff rfl).mp hbelow
    simp only [walkBelow, walkBelow.mismatch, hdemand rfl]
    exact ⟨[], notes_pure _, rfl⟩

/-- A walk that changes nothing visits every place in its order. -/
theorem notesAt_walkLevels {levels : Nat} (hv : v.Ordered)
    (hshape : Rebuilds checking path position v v) (hlevels : v.depth < levels) :
    NotesAt (walkLevels order noting levels path position v) v (v.places order)
      (Position.visitAt? path position v) := by
  induction levels generalizing path position v with
  | zero => omega
  | succ levels ih =>
    have hhere : NotesAt (noting path (position.node path) v) v [[]]
        (Position.visitAt? path position v) := ⟨_, notes_noting path _ v, rfl⟩
    have hbelow : NotesAt (walkBelow (walkLevels order noting levels) path position v) v
        (v.placesBelow order) (Position.visitAt? path position v) := by
      refine notesAt_walkBelow hv hshape fun b x c hx _ hpart => ih (hv.part hx) hpart ?_
      have hdepth := Value.depth_lt_of_part? hx
      omega
    rw [v.places_eq]
    cases order with
    | topDown => exact hhere.bind hbelow
    | bottomUp => exact hbelow.bind hhere

end

/-! ## Whole values -/

/-- Where a walk that changes nothing succeeds, the value has the shape of the schema. -/
theorem rebuilds_checking_of_transform {s : Schema β} {order : WalkOrder} {v w : Value}
    (h : s.transform order (fun _ _ x => .ok x) v = (.ok w : Except Fault Value)) :
    Rebuilds checking .root (.described (.block s.root)) v v := by
  have hgrows : Grows (checking (β := β)) (fun _ => 0) (fun _ => 0) :=
    Grows.of_depth_le fun _ _ v u hu => by cases hu; exact Nat.le_refl _
  unfold Schema.transform at h
  rw [walkLevels_unchanged] at h
  have hrebuilds := (transform_eq_ok_iff hgrows (Nat.le_refl 0)).mp h
  have hsame : w = v := by
    refine hrebuilds.eq_of_unchanged hereditary_true (fun _ hu => ?_) trivial
    cases hu
    rfl
  rwa [hsame] at hrebuilds

theorem Schema.notesAt_transform {s : Schema β} {v : Value} (hv : v.Ordered)
    (h : Rebuilds checking .root (.described (.block s.root)) v v) (order : WalkOrder) :
    NotesAt (s.transform order noting v) v (v.places order) (s.visitAt? v) :=
  notesAt_walkLevels hv h (Nat.lt_succ_self v.depth)

/-- The visits are what is found at the places, in the order of the walk. -/
theorem Schema.visits_eq {s : Schema β} {v : Value} (hv : v.Ordered)
    (h : Rebuilds checking .root (.described (.block s.root)) v v) (order : WalkOrder) :
    (s.transform order noting v).run [] = (.ok v, s.visits order v) ∧
      (s.visits order v).map some = (v.places order).map (s.visitAt? v) := by
  obtain ⟨noted, hnotes, hfound⟩ := Schema.notesAt_transform hv h order
  have hrun : (s.transform order noting v).run [] = (.ok v, noted) := hnotes []
  have hvisits : s.visits order v = noted := congrArg Prod.snd hrun
  rw [hvisits]
  exact ⟨hrun, hfound.symm⟩

/-- Every visit is what is found at some place. -/
theorem Schema.mem_visits_iff {s : Schema β} {v : Value} (hv : v.Ordered)
    (h : Rebuilds checking .root (.described (.block s.root)) v v) {order : WalkOrder}
    {visit : Visited β} :
    visit ∈ s.visits order v ↔ ∃ place, s.visitAt? v place = some visit := by
  have hmem : visit ∈ s.visits order v ↔ some visit ∈ (s.visits order v).map some := by simp
  rw [hmem, (Schema.visits_eq hv h order).2, List.mem_map]
  constructor
  · rintro ⟨place, _, hplace⟩
    exact ⟨place, hplace⟩
  · rintro ⟨place, hplace⟩
    have hvalue := (Schema.spells_of_visitAt? hplace).2
    exact ⟨place, (v.mem_places hv).mpr (by rw [hvalue]; rfl), hplace⟩

/-- Where a walk that changes nothing succeeds, both orders visit the same places of the value and
find the same there. Each place is visited once. Those below it are visited after it from the top
down, and before it from the bottom up; those right below it come in one and the same order. -/
theorem visits_in_both_orders (s : Schema β) {v w : Value} (hv : v.Ordered) {order : WalkOrder}
    (h : s.transform order (fun _ _ x => .ok x) v = (.ok w : Except Fault Value)) :
    (s.visits .topDown v).Perm (s.visits .bottomUp v) ∧
    (∀ order, (s.transform order noting v).run [] = (.ok v, s.visits order v) ∧
      (s.visits order v).map some = (v.places order).map (s.visitAt? v)) ∧
    (∀ place visit, s.visitAt? v place = some visit →
      v.Spells place visit.path.steps ∧ v.at? place = some visit.value) ∧
    (∀ order place, (v.places order).count place = if (v.at? place).isSome then 1 else 0) ∧
    (∀ place below, below ≠ [] → (v.at? (place ++ below)).isSome →
      [place, place ++ below].Sublist (v.places .topDown) ∧
        [place ++ below, place].Sublist (v.places .bottomUp)) ∧
    ∀ place b c, [place ++ [b], place ++ [c]].Sublist (v.places .topDown) ↔
      [place ++ [b], place ++ [c]].Sublist (v.places .bottomUp) := by
  have hshape := rebuilds_checking_of_transform h
  have hvisits := fun order => Schema.visits_eq hv hshape order
  have hnodup : ∀ order, (v.places order).Nodup := fun order => (v.pairwise_places hv order).nodup
  refine ⟨?_, hvisits, fun _ _ => Schema.spells_of_visitAt?, ?_, ?_, ?_⟩
  · have hplaces : (v.places .topDown).Perm (v.places .bottomUp) := by
      refine (List.perm_ext_iff_of_nodup (hnodup _) (hnodup _)).mpr fun place => ?_
      rw [v.mem_places hv, v.mem_places hv]
    rw [← List.map_perm_map_iff (Option.some_injective _), (hvisits _).2, (hvisits _).2]
    exact hplaces.map _
  · intro order place
    rw [(hnodup order).count]
    simp only [v.mem_places hv]
  · intro place below hne hbelow
    have habove : (v.at? place).isSome := by
      rw [Value.at?_append] at hbelow
      cases hplace : v.at? place with
      | none => simp [hplace] at hbelow
      | some x => rfl
    obtain ⟨b, rest, rfl⟩ := List.exists_cons_of_ne_nil hne
    have hdown : WalkOrder.Precedes .topDown (place ++ []) (place ++ b :: rest) :=
      .append .above place
    have hup : WalkOrder.Precedes .bottomUp (place ++ b :: rest) (place ++ []) :=
      .append .beneath place
    rw [List.append_nil] at hdown hup
    rw [WalkOrder.sublist_iff (v.pairwise_places hv _), WalkOrder.sublist_iff
      (v.pairwise_places hv _)]
    simp only [v.mem_places hv]
    exact ⟨⟨habove, hbelow, hdown⟩, hbelow, habove, hup⟩
  · intro place b c
    rw [WalkOrder.sublist_iff (v.pairwise_places hv _), WalkOrder.sublist_iff
      (v.pairwise_places hv _)]
    simp only [v.mem_places hv, WalkOrder.precedes_siblings_iff]

/-- Ports in a set, each with a name. -/
def portSchema : PlainSchema :=
  Schema.empty.withBlock "ports" (.ofMode .set (Block.empty.withAttribute "name" .requiredString))

/-- Two ports that are equal, so that they have one path, and a note that is not in the schema. -/
def twinPorts : Value :=
  .map [
    ("note", .map [("by", .string "a")]),
    ("ports", .list [.map [("name", .string "http")], .map [("name", .string "http")]])]

theorem ordered_twinPorts : twinPorts.Ordered := by
  have hport : (Value.map [("name", .string "http")]).Ordered := by simp
  have hports : (Value.list [.map [("name", .string "http")],
      .map [("name", .string "http")]]).Ordered := .list (by simp)
  exact Value.ordered_of_keys (by decide) (by simp [hports])

/-- Each of the twins is visited once. -/
theorem visits_twinPorts :
    twinPorts.Ordered ∧
    portSchema.transform .bottomUp (fun _ _ x => .ok x) twinPorts = (.ok twinPorts : Except Fault Value) ∧
    (portSchema.visits .topDown twinPorts).Perm (portSchema.visits .bottomUp twinPorts) ∧
    ∀ order i, i < 2 → (twinPorts.places order).count [.entry "ports", .item i] = 1 := by
  have hshape : portSchema.transform .bottomUp (fun _ _ x => .ok x) twinPorts =
      (.ok twinPorts : Except Fault Value) := rfl
  obtain ⟨hperm, _, _, honce, _⟩ := visits_in_both_orders portSchema ordered_twinPorts hshape
  refine ⟨ordered_twinPorts, hshape, hperm, fun order i hi => ?_⟩
  rw [honce]
  obtain rfl | rfl : i = 0 ∨ i = 1 := by omega
  all_goals rfl

end ProviderKit
