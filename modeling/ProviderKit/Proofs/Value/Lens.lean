import ProviderKit.Proofs.Keyed
import ProviderKit.Proofs.Schema.Places
import ProviderKit.Proofs.Value.FailedWrites

-- Reading and writing at paths belong together. What was written is read back, a later write at
-- the same path makes an earlier one undone, a write shows at no place beside its own, and to
-- write what stands at a path changes nothing.

namespace ProviderKit

/-! ## Places of paths -/

/-- What a step leads to in every value. The item that an element names depends on the value. -/
def Step.branch? : Step → Option Branch
  | .field name => some (.entry name)
  | .key k => some (.entry k)
  | .index i => some (.item i)
  | .element _ => none

/-- The place that a path leads to in every value, if it names no element of a set. -/
def Path.place? (path : Path) : Option (List Branch) := path.steps.mapM Step.branch?

namespace Value

variable {v x y new : Value} {s : Step} {b c : Branch} {steps : List Step} {walked : Path}
  {place other : List Branch}

theorem step?_eq_part? (h : s.branch? = some b) (v : Value) : v.step? s = v.part? b := by
  cases s <;> cases h <;> cases v <;> rfl

theorem reach?_eq_at? (h : steps.mapM Step.branch? = some place) (v : Value) :
    v.reach? steps = v.at? place := by
  induction steps generalizing v place with
  | nil =>
    cases h
    rfl
  | cons s steps ih =>
    rw [List.mapM_cons] at h
    obtain ⟨b, hb, h⟩ := Option.bind_eq_some_iff.mp h
    obtain ⟨rest, hrest, h⟩ := Option.bind_eq_some_iff.mp h
    cases h
    rw [reach?, at?, step?_eq_part? hb]
    cases v.part? b with
    | none => rfl
    | some x => exact ih hrest x

theorem toOption_atPath {path : Path} (h : path.place? = some place) (v : Value) :
    (v.atPath path).toOption = v.at? place := by
  rw [← reach?_eq_at? h v]
  cases hat : v.atPath path with
  | ok x => exact ((atPath_eq_ok_iff v x path).mp hat).symm
  | error fault =>
    cases hreach : v.reach? path.steps with
    | none => rfl
    | some x =>
      rw [(atPath_eq_ok_iff v x path).mpr hreach] at hat
      cases hat

/-- Below null there is no place. -/
theorem at?_null (h : place ≠ []) : Value.null.at? place = none := by
  cases place with
  | nil => exact absurd rfl h
  | cons b place => cases b <;> rfl

/-! ## Parts that are put -/

theorem put_map {k : String} (h : s.branch? = some (.entry k)) (es : Keyed Value) (x : Value) :
    (Value.map es).put s x = .map (Keyed.insert es k x) := by
  cases s <;> cases h <;> rfl

/-- Under a key, a value is put into a dictionary, where null counts as one without entries, or it
is not put at all. -/
theorem put_entry_cases {k : String} (h : s.branch? = some (.entry k)) (v : Value) :
    (∃ es, (∀ b, v.part? b = (Value.map es).part? b) ∧
      ∀ x, v.put s x = .map (Keyed.insert es k x)) ∨
    v.part? (.entry k) = none ∧ ∀ x, v.put s x = v := by
  cases v with
  | map es => exact .inl ⟨es, fun _ => rfl, fun x => put_map h es x⟩
  | null =>
    cases s <;> cases h
    · exact .inl ⟨[], fun b => by cases b <;> rfl, fun _ => rfl⟩
    · exact .inr ⟨rfl, fun _ => rfl⟩
  | _ => exact .inr ⟨rfl, fun _ => by cases s <;> cases h <;> rfl⟩

theorem put_item {i : Nat} (h : s.branch? = some (.item i)) (v x : Value) :
    v.put s x = match v with
      | .list xs => .list (xs.set i x)
      | v => v := by
  cases s <;> cases h
  cases v <;> rfl

theorem put_put (h : s.branch? = some b) (v x y : Value) : (v.put s x).put s y = v.put s y := by
  cases b with
  | entry k =>
    obtain ⟨es, _, hput⟩ | ⟨_, hput⟩ := put_entry_cases h v
    · rw [hput, hput, put_map h, Keyed.insert_insert]
    · rw [hput]
  | item i => cases v <;> simp [put_item h]

theorem part?_put_of_ne (h : s.branch? = some b) (hne : c ≠ b) (v x : Value) :
    (v.put s x).part? c = v.part? c := by
  cases b with
  | entry k =>
    obtain ⟨es, hparts, hput⟩ | ⟨_, hput⟩ := put_entry_cases h v
    · rw [hput, hparts]
      cases c with
      | entry l => exact Keyed.get?_insert_of_ne es x fun hl => hne (congrArg Branch.entry hl)
      | item j => rfl
    · rw [hput]
  | item i =>
    rw [put_item h]
    cases v with
    | list xs =>
      cases c with
      | entry l => rfl
      | item j => exact List.getElem?_set_ne fun hj => hne (congrArg Branch.item hj.symm)
    | _ => rfl

/-- Where a step leads somewhere or puts something, what it puts is found there. -/
theorem part?_put_self (h : s.branch? = some b) (hput : v.part? b ≠ none ∨ v.put s x ≠ v) :
    (v.put s x).part? b = some x := by
  cases b with
  | entry k =>
    obtain ⟨es, _, hes⟩ | ⟨hnone, hnot⟩ := put_entry_cases h v
    · rw [hes]
      exact Keyed.get?_insert_self es k x
    · exact absurd hput (by simp [hnone, hnot])
  | item i =>
    rw [put_item h] at hput ⊢
    cases v with
    | list xs =>
      refine List.getElem?_set_self (Nat.lt_of_not_le fun hle => ?_)
      rcases hput with hput | hput
      · exact hput (List.getElem?_eq_none hle)
      · exact hput (congrArg Value.list (List.set_eq_of_length_le hle))
    | _ => exact absurd hput (by simp [part?])

/-! ## Writes that succeed -/

/-- A write that gets past a step goes on in what stands there, or in null. Any other write along
this step does so too, and what it leaves behind is found there. -/
theorem writeAlong_past (hs : s.branch? = some b)
    (h : (writeAlong new walked (s :: steps) v).outcome = .ok ()) :
    (∀ x, (v.put s x).part? b = some x) ∧ ∀ new walked steps,
      writeAlong new walked (s :: steps) v =
        ⟨v.put s (writeAlong new (walked.push s) steps ((v.part? b).getD .null)).value,
          (writeAlong new (walked.push s) steps ((v.part? b).getD .null)).outcome⟩ := by
  cases hstep : v.step? s with
  | some x =>
    have hpart : v.part? b = some x := by rw [← step?_eq_part? hs, hstep]
    rw [hpart]
    exact ⟨fun y => part?_put_self hs (.inl (by simp [hpart])), writeAlong_of_step? hstep⟩
  | none =>
    have hpart : v.part? b = none := by rw [← step?_eq_part? hs, hstep]
    rw [hpart]
    rcases writeAlong_of_step?_eq_none hstep with ⟨hmade, hw⟩ | hw
    · exact ⟨fun y => part?_put_self hs (.inr (hmade y)), hw⟩
    · rw [hw] at h
      cases h

/-- What a write along steps to a place leaves behind. -/
structure Lays (v : Value) (place : List Branch) (steps : List Step) (x w : Value) : Prop where
  found : w.at? place = some x
  rewritten : ∀ y walked, writeAlong y walked steps w = writeAlong y walked steps v
  beside : ∀ {other}, ¬ place <+: other → ¬ other <+: place → w.at? other = v.at? other

theorem lays_writeAlong (hplace : steps.mapM Step.branch? = some place)
    (h : (writeAlong x walked steps v).outcome = .ok ()) :
    Lays v place steps x (writeAlong x walked steps v).value := by
  induction steps generalizing v place walked with
  | nil =>
    cases hplace
    exact ⟨rfl, fun _ _ => rfl, fun hnot => absurd List.nil_prefix hnot⟩
  | cons s steps ih =>
    rw [List.mapM_cons] at hplace
    obtain ⟨b, hb, hplace⟩ := Option.bind_eq_some_iff.mp hplace
    obtain ⟨rest, hrest, hplace⟩ := Option.bind_eq_some_iff.mp hplace
    cases hplace
    obtain ⟨hput, hw⟩ := writeAlong_past hb h
    rw [hw] at h ⊢
    have hbelow := ih hrest h
    generalize writeAlong x (walked.push s) steps ((v.part? b).getD .null) = w at h hbelow ⊢
    refine ⟨?_, fun y walked => ?_, fun {other} hnot hnot' => ?_⟩
    · rw [at?, hput]
      exact hbelow.found
    · have hstep : (v.put s w.value).step? s = some w.value := by
        rw [step?_eq_part? hb, hput]
      rw [writeAlong_of_step? hstep, hw, hbelow.rewritten, put_put hb]
    · cases other with
      | nil => exact absurd List.nil_prefix hnot'
      | cons c other =>
        rw [at?, at?]
        by_cases hc : c = b
        · subst hc
          rw [List.cons_prefix_cons] at hnot hnot'
          have hbeside := hbelow.beside (fun hp => hnot ⟨rfl, hp⟩) (fun hp => hnot' ⟨rfl, hp⟩)
          rw [hput, Option.bind_some, hbeside]
          cases v.part? c with
          | some x => rfl
          | none =>
            refine at?_null fun hnil => hnot' ⟨rfl, ?_⟩
            rw [hnil]
            exact List.nil_prefix
        · rw [part?_put_of_ne hb hc]

theorem writeAlong_of_reach? (hv : v.Ordered) (h : v.reach? steps = some x) (walked : Path) :
    writeAlong x walked steps v = ⟨v, .ok ()⟩ := by
  induction steps generalizing v walked with
  | nil =>
    cases h
    rfl
  | cons s steps ih =>
    obtain ⟨y, hstep, hy⟩ := Option.bind_eq_some_iff.mp h
    rw [writeAlong_of_step? hstep, ih (hv.step? hstep) hy, (put_eq_self_iff hv hstep).mpr rfl]

/-- Reading and writing at paths form a lens. Along a path that names no element of a set, what a
write has written is read back, the next write leaves what it would have left without the first,
and wherever a path leads that parts from this one, the same is read as before or nothing is.
Along any path, to write what is read there succeeds and changes nothing. -/
theorem atPath_setAtPath_lens (v : Value) :
    (∀ (path : Path) (place : List Branch) (x : Value), path.place? = some place →
      (v.setAtPath path x).outcome = .ok () →
      let w := (v.setAtPath path x).value
      w.atPath path = .ok x ∧ (∀ y, w.setAtPath path y = v.setAtPath path y) ∧
      ∀ (beside : Path) (other : List Branch), beside.place? = some other →
        ¬ place <+: other → ¬ other <+: place →
        (w.atPath beside).toOption = (v.atPath beside).toOption) ∧
    (v.Ordered → ∀ (path : Path) (x : Value), v.atPath path = .ok x →
      v.setAtPath path x = ⟨v, .ok ()⟩) := by
  constructor
  · intro path place x hplace hok
    have hlays := lays_writeAlong hplace hok
    refine ⟨?_, fun y => hlays.rewritten y .root, fun beside other hother hnot hnot' => ?_⟩
    · rw [atPath_eq_ok_iff, reach?_eq_at? hplace]
      exact hlays.found
    · rw [toOption_atPath hother, toOption_atPath hother]
      exact hlays.beside hnot hnot'
  · intro hv path x hx
    exact writeAlong_of_reach? hv ((atPath_eq_ok_iff v x path).mp hx) .root

/-- A network with one peer and two tags. -/
def network : Value :=
  .map [("peers", .list [.map [("name", .string "a")]]),
    ("tags", .list [.string "x", .string "y"])]

/-- The peer gets an id beside its name, where the key of the way there is a map's. The second tag
is found as an element and written back. -/
theorem network_lens :
    let id := ((Path.root.field "peers").index 0).field "id"
    let name := ((Path.root.key "peers").index 0).field "name"
    let tag := (Path.root.field "tags").element (.string "y")
    let w := (network.setAtPath id .unknown).value
    ((network.setAtPath id .unknown).outcome = .ok () ∧ w.atPath id = .ok .unknown ∧
      w.setAtPath id (.string "7") = network.setAtPath id (.string "7") ∧
      (w.atPath name).toOption = (network.atPath name).toOption) ∧
    network.Ordered ∧ network.setAtPath tag (.string "y") = ⟨network, .ok ()⟩ := by
  intro id name tag w
  obtain ⟨hlens, hback⟩ := atPath_setAtPath_lens network
  obtain ⟨hread, hagain, hbeside⟩ := hlens id _ .unknown rfl rfl
  have hord : network.Ordered := by
    refine ordered_of_keys (by decide) ?_
    simp [ordered_entry, Ordered.list]
  refine ⟨⟨rfl, hread, hagain _, hbeside name _ rfl ?_ ?_⟩, hord, hback hord tag _ rfl⟩
  · decide
  · decide

end Value

end ProviderKit
