import ProviderKit.Proofs.Schema.Mismatches
import ProviderKit.Proofs.Value.Equality
import ProviderKit.Proofs.Value.Lens
import ProviderKit.Proofs.Value.Recognised

-- Values as documents of their own. A value has a document exactly if nothing in it is unknown.
-- Else the first unknown value is named, by a path that leads to it.

namespace ProviderKit

/-! ## Paths of places -/

/-- The step that names what a branch leads to, in every value. -/
def Branch.step : Branch → Step
  | .entry k => .field k
  | .item i => .index i

@[simp] theorem Branch.branch?_step (b : Branch) : b.step.branch? = some b := by
  cases b <;> rfl

theorem mapM_branch?_steps (place : List Branch) :
    (place.map Branch.step).mapM Step.branch? = some place := by
  induction place with
  | nil => rfl
  | cons b place ih => simp [List.mapM_cons, ih]

namespace Value

variable {v : Value} {place : List Branch}

/-! ## Unknown values -/

/-- At this place, the value is unknown. -/
def UnknownAt (v : Value) (place : List Branch) : Prop := v.at? place = some .unknown

theorem unknownAt_cons_iff {b : Branch} :
    v.UnknownAt (b :: place) ↔ ∃ x, v.part? b = some x ∧ x.UnknownAt place := by
  unfold UnknownAt
  rw [at?, Option.bind_eq_some_iff]

theorem not_unknownAt_of_atom (hv : v.isAtom = true) (hne : v ≠ .unknown) :
    ¬ v.UnknownAt place := by
  intro h
  cases place with
  | nil => exact hne (Option.some.inj h)
  | cons b place =>
    obtain ⟨x, hx, _⟩ := unknownAt_cons_iff.mp h
    rw [part?_of_atom hv] at hx
    cases hx

theorem allFullyKnown_iff {xs : List Value} :
    allFullyKnown xs = true ↔ ∀ x ∈ xs, x.isFullyKnown = true := by
  induction xs with
  | nil => simp [allFullyKnown]
  | cons x xs ih => rw [allFullyKnown_cons, ih, List.forall_mem_cons]

theorem entriesFullyKnown_iff {es : List (String × Value)} :
    entriesFullyKnown es = true ↔ ∀ e ∈ es, e.2.isFullyKnown = true := by
  induction es with
  | nil => simp [entriesFullyKnown]
  | cons e es ih => rw [entriesFullyKnown_cons, ih, List.forall_mem_cons]

/-- A value is fully known if it is unknown at no place. -/
theorem isFullyKnown_iff (hv : v.Ordered) :
    v.isFullyKnown = true ↔ ∀ place, ¬ v.UnknownAt place := by
  induction v using contentsInduction with
  | atom v hatom =>
    by_cases hunknown : v = .unknown
    · subst hunknown
      apply iff_of_false
      · decide
      · intro h
        exact h [] rfl
    · apply iff_of_true
      · cases v <;> simp_all [isFullyKnown, isAtom]
      · intro place
        exact not_unknownAt_of_atom hatom hunknown
  | list xs ih =>
    rw [isFullyKnown, allFullyKnown_iff]
    constructor
    · intro h place hplace
      cases place with
      | nil => cases hplace
      | cons b place =>
        obtain ⟨x, hx, hbelow⟩ := unknownAt_cons_iff.mp hplace
        cases b with
        | entry k => cases hx
        | item i =>
          have hmem := List.mem_of_getElem? hx
          exact (ih x hmem (hv.of_list hmem)).mp (h x hmem) place hbelow
    · intro h x hx
      obtain ⟨i, hi⟩ := List.getElem?_of_mem hx
      refine (ih x hx (hv.of_list hx)).mpr fun place hplace => ?_
      exact h (.item i :: place) (unknownAt_cons_iff.mpr ⟨x, hi, hplace⟩)
  | map es ih =>
    rw [isFullyKnown, entriesFullyKnown_iff]
    constructor
    · intro h place hplace
      cases place with
      | nil => cases hplace
      | cons b place =>
        obtain ⟨x, hx, hbelow⟩ := unknownAt_cons_iff.mp hplace
        cases b with
        | item i => cases hx
        | entry k =>
          have hmem := Keyed.mem_of_get? hx
          exact (ih _ hmem (hv.of_map hmem)).mp (h _ hmem) place hbelow
    · intro h e he
      have hget := Keyed.get?_of_mem hv.ascending (k := e.1) (a := e.2) he
      refine (ih e he (hv.of_map he)).mpr fun place hplace => ?_
      exact h (.entry e.1 :: place) (unknownAt_cons_iff.mpr ⟨e.2, hget, hplace⟩)

/-! ## Documents, part by part -/

/-- What is unknown at a place has no document, and is named by the path of the place. -/
def Undocumented (path : Path) (v : Value) (place : List Branch) (fault : Fault) : Prop :=
  v.UnknownAt place ∧ fault = .unknownValue ⟨path.steps ++ place.map Branch.step⟩

theorem undocumented_cons_iff {path : Path} {fault : Fault} {b : Branch} :
    Undocumented path v (b :: place) fault ↔
      ∃ x, v.part? b = some x ∧ Undocumented (path.push b.step) x place fault := by
  unfold Undocumented
  rw [unknownAt_cons_iff, Path.push_steps, List.append_assoc, List.map_cons, List.singleton_append]
  constructor
  · rintro ⟨⟨x, hx, hplace⟩, hfault⟩
    exact ⟨x, hx, hplace, hfault⟩
  · rintro ⟨x, hx, hplace, hfault⟩
    exact ⟨⟨x, hx, hplace⟩, hfault⟩

/-- The items are gone through in their order, from the index `i` on. -/
theorem verdict_jsonItems (path : Path) {i : Nat} {xs : List Value}
    (h : ∀ x ∈ xs, ∀ path, Verdict (Undocumented path x) x.toWire (x.toJsonAt path)) :
    Verdict (fun place fault => ∃ j x rest, xs[j]? = some x ∧ place = .item (i + j) :: rest ∧
        Undocumented (path.index (i + j)) x rest fault)
      (wireItems xs) (jsonItems path i xs) := by
  induction xs generalizing i with
  | nil =>
    refine .accepted fun place fault => ?_
    rintro ⟨j, x, rest, hx, _⟩
    cases hx
  | cons x xs ih =>
    have hfirst := (h x List.mem_cons_self (path.index i)).under (.item i)
    have hrest := (ih (i := i + 1) fun y hy => h y (List.mem_cons_of_mem _ hy)).map (x.toWire :: ·)
    refine (hfirst.bind hrest ?_).congr fun place fault => ?_
    · rintro place fault place' fault' ⟨rest, rfl, _⟩ ⟨j, y, rest', _, rfl, _⟩
      exact .rel (.item (by omega))
    · constructor
      · rintro ⟨j, y, rest, hy, rfl, hplace⟩
        cases j with
        | zero =>
          cases hy
          exact .inl ⟨rest, rfl, hplace⟩
        | succ j =>
          rw [Nat.add_comm j 1, ← Nat.add_assoc] at hplace ⊢
          exact .inr ⟨j, y, rest, hy, rfl, hplace⟩
      · rintro (⟨rest, rfl, hplace⟩ | ⟨j, y, rest, hy, rfl, hplace⟩)
        · exact ⟨0, x, rest, rfl, rfl, hplace⟩
        · refine ⟨j + 1, y, rest, hy, ?_⟩
          rw [Nat.add_comm j 1, ← Nat.add_assoc]
          exact ⟨rfl, hplace⟩

/-- The entries are gone through in the order of their keys. -/
theorem verdict_jsonEntries (path : Path) {es : List (String × Value)} (hes : Keyed.Ascending es)
    (h : ∀ e ∈ es, ∀ path, Verdict (Undocumented path e.2) e.2.toWire (e.2.toJsonAt path)) :
    Verdict (fun place fault => ∃ e ∈ es, ∃ rest, place = .entry e.1 :: rest ∧
        Undocumented (path.field e.1) e.2 rest fault)
      (wireEntries es) (jsonEntries path es) := by
  induction es with
  | nil =>
    refine .accepted fun place fault => ?_
    rintro ⟨e, he, _⟩
    cases he
  | cons e es ih =>
    obtain ⟨k, x⟩ := e
    obtain ⟨hlt, hes⟩ := List.pairwise_cons.mp hes
    have hfirst := (h (k, x) List.mem_cons_self (path.field k)).under (.entry k)
    have hrest := (ih hes fun e he => h e (List.mem_cons_of_mem _ he)).map ((k, x.toWire) :: ·)
    refine (hfirst.bind hrest ?_).congr fun place fault => ?_
    · rintro place fault place' fault' ⟨rest, rfl, _⟩ ⟨e, he, rest', rfl, _⟩
      exact .rel (.entry (hlt e he))
    · constructor
      · rintro ⟨e, he, rest, rfl, hplace⟩
        rcases List.mem_cons.mp he with rfl | he
        · exact .inl ⟨rest, rfl, hplace⟩
        · exact .inr ⟨e, he, rest, rfl, hplace⟩
      · rintro (⟨rest, rfl, hplace⟩ | ⟨e, he, rest, rfl, hplace⟩)
        · exact ⟨(k, x), List.mem_cons_self, rest, rfl, hplace⟩
        · exact ⟨e, List.mem_cons_of_mem _ he, rest, rfl, hplace⟩

/-- The document of a value is found, or the fault of the first place where it is unknown. -/
theorem verdict_toJsonAt (hv : v.Ordered) (path : Path) :
    Verdict (Undocumented path v) v.toWire (v.toJsonAt path) := by
  induction v using contentsInduction generalizing path with
  | atom v hatom =>
    by_cases hunknown : v = .unknown
    · subst hunknown
      have hhere : Undocumented path .unknown [] (.unknownValue path) := by
        refine ⟨rfl, ?_⟩
        rw [List.map_nil, List.append_nil]
      refine .refused hhere fun other fault' hother => ?_
      cases other with
      | nil => exact .inl rfl
      | cons b other => exact .inr .nil
    · have hok : v.toJsonAt path = .ok v.toWire := by
        cases v <;> first | exact absurd rfl hunknown | rfl | cases hatom
      rw [hok]
      refine .accepted fun place fault h => ?_
      exact not_unknownAt_of_atom hatom hunknown h.1
  | list xs ih =>
    have hitems := verdict_jsonItems path (i := 0) fun x hx path =>
      ih x hx (hv.of_list hx) path
    refine (hitems.map Json.array).congr fun place fault => ?_
    simp only [Nat.zero_add]
    constructor
    · intro h
      cases place with
      | nil => cases h.1
      | cons b place =>
        obtain ⟨x, hx, hplace⟩ := undocumented_cons_iff.mp h
        cases b with
        | entry k => cases hx
        | item j => exact ⟨j, x, place, hx, rfl, hplace⟩
    · rintro ⟨j, x, rest, hx, rfl, hplace⟩
      exact undocumented_cons_iff.mpr ⟨x, hx, hplace⟩
  | map es ih =>
    have hentries := verdict_jsonEntries path hv.ascending fun e he path =>
      ih e he (hv.of_map he) path
    refine (hentries.map Json.object).congr fun place fault => ?_
    constructor
    · intro h
      cases place with
      | nil => cases h.1
      | cons b place =>
        obtain ⟨x, hx, hplace⟩ := undocumented_cons_iff.mp h
        cases b with
        | item j => cases hx
        | entry k => exact ⟨(k, x), Keyed.mem_of_get? hx, place, rfl, hplace⟩
    · rintro ⟨e, he, rest, rfl, hplace⟩
      exact undocumented_cons_iff.mpr ⟨e.2, Keyed.get?_of_mem hv.ascending he, hplace⟩

/-! ## Whole values -/

/-- A value has a document exactly if it is fully known, and from the document the value is read
with its texts recognised. Else an unknown value is named by the path that leads to it, and every
other one comes later, in the order of items and of keys. -/
theorem toJson_names_first_unknown (hv : v.Ordered) :
    ((∃ j, v.toJson = .ok j) ↔ v.isFullyKnown = true) ∧
      (∀ j, v.toJson = .ok j → ofJson j = v.recognised) ∧
      ∀ fault, v.toJson = .error fault → ∃ (path : Path) (place : List Branch),
        fault = .unknownValue path ∧ path.place? = some place ∧ v.atPath path = .ok .unknown ∧
          ∀ other, v.at? other = some .unknown → other = place ∨ PlaceBefore place other := by
  have hverdict : Verdict (Undocumented .root v) v.toWire v.toJson := verdict_toJsonAt hv .root
  rw [isFullyKnown_iff hv]
  cases hjson : v.toJson with
  | ok j =>
    rw [hjson] at hverdict
    cases hverdict with
    | accepted hnone =>
      refine ⟨?_, ?_, nofun⟩
      · apply iff_of_true
        · exact ⟨_, rfl⟩
        · intro place hplace
          exact hnone place _ ⟨hplace, rfl⟩
      · intro j hj
        cases hj
        exact ofJson_toWire_eq v
  | error fault =>
    rw [hjson] at hverdict
    cases hverdict with
    | @refused place _ hplace hfirst =>
      obtain ⟨hunknown, rfl⟩ := hplace
      refine ⟨?_, nofun, ?_⟩
      · apply iff_of_false
        · rintro ⟨j, hj⟩
          cases hj
        · intro h
          exact h place hunknown
      · intro fault hfault
        cases hfault
        have hpath := mapM_branch?_steps place
        refine ⟨⟨place.map Branch.step⟩, place, rfl, hpath, ?_, ?_⟩
        · rw [atPath_eq_ok_iff, reach?_eq_at? hpath]
          exact hunknown
        · intro other hother
          exact hfirst other _ ⟨hother, rfl⟩

/-- Two values are unknown, and the text that stands for one comes before both of them. -/
def halfKnown : Value :=
  .map [
    ("id", .string unknownText),
    ("peers", .list [.string "a", .map [("name", .unknown)]]),
    ("tags", .unknown)]

theorem ordered_halfKnown : halfKnown.Ordered := by
  have hpeers : (Value.list [.string "a", .map [("name", .unknown)]]).Ordered := by
    refine .list fun x hx => ?_
    simp only [List.mem_cons, List.not_mem_nil, or_false] at hx
    rcases hx with rfl | rfl
    · exact ordered_string _
    · exact ordered_entry.mpr ordered_unknown
  exact ordered_of_keys (by decide) (by simp [hpeers])

/-- The name of the peer is the first value that is unknown. -/
theorem halfKnown_names_peer :
    let name := ((Path.root.field "peers").index 1).field "name"
    halfKnown.Ordered ∧ halfKnown.isFullyKnown = false ∧
      halfKnown.toJson = .error (.unknownValue name) ∧ halfKnown.atPath name = .ok .unknown ∧
      ∀ other, halfKnown.at? other = some .unknown →
        other = [.entry "peers", .item 1, .entry "name"] ∨
          PlaceBefore [.entry "peers", .item 1, .entry "name"] other := by
  intro name
  obtain ⟨-, -, hfirst⟩ := toJson_names_first_unknown ordered_halfKnown
  obtain ⟨path, place, hfault, hplace, hunknown, hlater⟩ := hfirst (.unknownValue name) rfl
  cases hfault
  cases hplace
  exact ⟨ordered_halfKnown, rfl, rfl, hunknown, hlater⟩

end Value

end ProviderKit
