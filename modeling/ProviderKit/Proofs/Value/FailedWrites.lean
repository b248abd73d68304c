import ProviderKit.Proofs.Plan.Stages
import ProviderKit.Proofs.Schema.Ordered
import ProviderKit.Provider.Resource
import ProviderKit.Schema.Build

-- What a write leaves behind when it fails. On its way it makes the entries that are missing, and
-- they stay when a later step cannot be taken: the value is as before exactly if the place where
-- the write stopped was there before.

namespace ProviderKit

namespace Value

/-! ## One step of a write -/

/-- A value with another part where a step leads. -/
def put : Value → Step → Value → Value
  | .null, .field name, x => .map [(name, x)]
  | .map es, .field name, x => .map (Keyed.insert es name x)
  | .map es, .key k, x => .map (Keyed.insert es k x)
  | .list xs, .index i, x => .list (xs.set i x)
  | .list xs, .element e, x => .list (xs.set (xs.findIdx fun item => item.same e) x)
  | v, _, _ => v

variable {v x y new : Value} {s : Step} {steps : List Step} {walked : Path} {fault : Fault}

/-- The first item that equals an element is where its step leads. -/
theorem findIdx_of_step? {xs : List Value} {e : Value}
    (h : (Value.list xs).step? (.element e) = some x) :
    (xs.findIdx? fun item => item.same e) = some (xs.findIdx fun item => item.same e) ∧
      xs[xs.findIdx fun item => item.same e]? = some x := by
  simp only [step?, List.find?_eq_bind_findIdx?_getElem?, Option.bind_eq_some_iff] at h
  obtain ⟨i, hi, hx⟩ := h
  have hfirst : (xs.findIdx fun item => item.same e) = i := by
    rw [List.findIdx_eq_getD_findIdx?, hi]
    rfl
  rw [hfirst]
  exact ⟨hi, hx⟩

/-- What a write does below a step is put where the step leads. -/
theorem writeAlong_of_step? (h : v.step? s = some x) (new : Value) (walked : Path)
    (steps : List Step) :
    writeAlong new walked (s :: steps) v =
      ⟨v.put s (writeAlong new (walked.push s) steps x).value,
        (writeAlong new (walked.push s) steps x).outcome⟩ := by
  cases v with
  | null | unknown | bool _ | number _ | string _ => cases s <;> cases h
  | map es => cases s <;> simp_all [step?, writeAlong, opened, put]
  | list xs =>
    cases s with
    | field _ | key _ => cases h
    | index i => simp_all [step?, writeAlong, opened, put]
    | element e =>
      obtain ⟨hi, hx⟩ := findIdx_of_step? h
      simp only [writeAlong, opened, put, hi, hx]

/-- Where a step leads nowhere, an entry is made for the write to go on in, or the write fails and
has done nothing yet. -/
theorem writeAlong_of_step?_eq_none (h : v.step? s = none) :
    ((∀ x, v.put s x ≠ v) ∧ ∀ new walked steps, writeAlong new walked (s :: steps) v =
      ⟨v.put s (writeAlong new (walked.push s) steps .null).value,
        (writeAlong new (walked.push s) steps .null).outcome⟩) ∨
    ∀ new walked steps, writeAlong new walked (s :: steps) v =
      ⟨v, .error (.invalidStep walked s.display)⟩ := by
  cases v with
  | null =>
    cases s with
    | field name => exact .inl ⟨fun x => nofun, fun _ _ _ => rfl⟩
    | key _ | index _ | element _ => exact .inr fun _ _ _ => rfl
  | unknown | bool _ | number _ | string _ => exact .inr fun _ _ _ => by cases s <;> rfl
  | map es =>
    have hmade : ∀ k x, Keyed.get? es k = none → Value.map (Keyed.insert es k x) ≠ .map es := by
      intro k x hk hes
      exact Keyed.insert_ne_self hk x (Value.map.inj hes)
    cases s with
    | field name =>
      refine .inl ⟨fun x => hmade name x h, fun _ _ _ => ?_⟩
      simp_all [step?, writeAlong, opened, put]
    | key k =>
      refine .inl ⟨fun x => hmade k x h, fun _ _ _ => ?_⟩
      simp_all [step?, writeAlong, opened, put]
    | index _ | element _ => exact .inr fun _ _ _ => rfl
  | list xs =>
    right
    intro new walked steps
    cases s with
    | field _ | key _ => rfl
    | index i => simp_all [step?, writeAlong, opened]
    | element e =>
      have hnone : (xs.findIdx? fun item => item.same e) = none :=
        List.findIdx?_eq_none_iff.mpr fun y hy => by simpa using List.find?_eq_none.mp h y hy
      simp only [writeAlong, opened, hnone]

theorem set_eq_self_iff {xs : List Value} {i : Nat} (h : xs[i]? = some x) :
    xs.set i y = xs ↔ y = x := by
  obtain ⟨hi, rfl⟩ := List.getElem?_eq_some_iff.mp h
  constructor
  · intro heq
    have hget := List.getElem?_set_self (a := y) hi
    rw [heq, h] at hget
    exact (Option.some.inj hget).symm
  · intro hy
    rw [hy, List.set_getElem_self]

/-- To put back what was there changes nothing, and to put something else there does. -/
theorem put_eq_self_iff (hv : v.Ordered) (h : v.step? s = some x) : v.put s y = v ↔ y = x := by
  cases v with
  | null | unknown | bool _ | number _ | string _ => cases s <;> cases h
  | map es =>
    cases s with
    | field _ | key _ =>
      rw [put, Value.map.injEq]
      exact Keyed.insert_eq_self_iff hv.ascending h
    | index _ | element _ => cases h
  | list xs =>
    cases s with
    | field _ | key _ => cases h
    | index i =>
      rw [put, Value.list.injEq]
      exact set_eq_self_iff h
    | element e =>
      rw [put, Value.list.injEq]
      exact set_eq_self_iff (findIdx_of_step? h).2

theorem Ordered.step? (hv : v.Ordered) (h : v.step? s = some x) : x.Ordered := by
  cases v with
  | null | unknown | bool _ | number _ | string _ => cases s <;> cases h
  | map es =>
    cases s with
    | field _ | key _ => exact hv.of_map (Keyed.mem_of_get? h)
    | index _ | element _ => cases h
  | list xs =>
    cases s with
    | field _ | key _ => cases h
    | index i => exact hv.of_list (List.mem_of_getElem? h)
    | element e => exact hv.of_list (List.mem_of_find?_eq_some h)

/-! ## A failed write -/

/-- A write stopped before a step, having walked further along the steps before it. What it leaves
behind is what writing back the content of that place leaves, where a place that is not there counts
as null. -/
structure StoppedAt (v : Value) (walked : Path) (before : List Step) (s : Step) (w : Written) :
    Prop where
  outcome : w.outcome = .error (.invalidStep ⟨walked.steps ++ before⟩ s.display)
  left : w.value = (writeAlong ((v.reach? before).getD .null) walked before v).value
  kept_iff : v.Ordered → (w.value = v ↔ ∃ x, v.reach? before = some x)

variable {before : List Step} {t : Step}

theorem stoppedAt_here (v : Value) (walked : Path) (s : Step) :
    StoppedAt v walked [] s ⟨v, .error (.invalidStep walked s.display)⟩ := by
  refine ⟨?_, rfl, ?_⟩
  · simp
  · intro _
    exact iff_of_true rfl ⟨v, rfl⟩

theorem StoppedAt.below (hstep : v.step? s = some x)
    (h : StoppedAt x (walked.push s) before t (writeAlong new (walked.push s) steps x)) :
    StoppedAt v walked (s :: before) t (writeAlong new walked (s :: steps) v) := by
  have hreach : v.reach? (s :: before) = x.reach? before := by
    rw [reach?, hstep]
    rfl
  rw [writeAlong_of_step? hstep]
  refine ⟨?_, ?_, ?_⟩
  · simpa using h.outcome
  · rw [hreach, writeAlong_of_step? hstep]
    exact congrArg (v.put s) h.left
  · intro hv
    rw [hreach, put_eq_self_iff hv hstep]
    exact h.kept_iff (hv.step? hstep)

/-- Below null, nothing is there but null. -/
theorem getD_reach?_null (steps : List Step) : (Value.null.reach? steps).getD .null = .null := by
  cases steps with
  | nil => rfl
  | cons s steps => cases s <;> rfl

theorem StoppedAt.belowNew (hstep : v.step? s = none) (hmade : ∀ x, v.put s x ≠ v)
    (hw : ∀ new walked steps, writeAlong new walked (s :: steps) v =
      ⟨v.put s (writeAlong new (walked.push s) steps .null).value,
        (writeAlong new (walked.push s) steps .null).outcome⟩)
    (h : StoppedAt .null (walked.push s) before t (writeAlong new (walked.push s) steps .null)) :
    StoppedAt v walked (s :: before) t (writeAlong new walked (s :: steps) v) := by
  have hreach : v.reach? (s :: before) = none := by
    rw [reach?, hstep]
    rfl
  rw [hw]
  refine ⟨?_, ?_, ?_⟩
  · simpa using h.outcome
  · have hleft := h.left
    rw [getD_reach?_null] at hleft
    rw [hreach, Option.getD_none, hw]
    exact congrArg (v.put s) hleft
  · intro _
    rw [hreach]
    refine iff_of_false (hmade _) ?_
    rintro ⟨x, hx⟩
    cases hx

theorem exists_stoppedAt (h : (writeAlong new walked steps v).outcome = .error fault) :
    ∃ before s after, steps = before ++ s :: after ∧
      StoppedAt v walked before s (writeAlong new walked steps v) := by
  induction steps generalizing v walked with
  | nil => cases h
  | cons s steps ih =>
    cases hstep : v.step? s with
    | some x =>
      rw [writeAlong_of_step? hstep] at h
      obtain ⟨before, t, after, rfl, hstop⟩ := ih h
      exact ⟨s :: before, t, after, rfl, hstop.below hstep⟩
    | none =>
      rcases writeAlong_of_step?_eq_none hstep with ⟨hmade, hw⟩ | hw
      · rw [hw] at h
        obtain ⟨before, t, after, rfl, hstop⟩ := ih h
        exact ⟨s :: before, t, after, rfl, hstop.belowNew hstep hmade hw⟩
      · refine ⟨[], s, steps, rfl, ?_⟩
        rw [hw]
        exact stoppedAt_here v walked s

/-- The place at which the fault says that a write stopped is there. -/
def HoldsPlaceOf (v : Value) (fault : Fault) : Prop :=
  ∃ walked step found, fault = .invalidStep walked step ∧ v.atPath walked = .ok found

theorem setAtPath_failed {path : Path} (h : (v.setAtPath path new).outcome = .error fault) :
    ∃ walked step, fault = .invalidStep walked step ∧ walked.steps <+: path.steps ∧
      (v.setAtPath path new).value = (v.setAtPath walked (v.atPathOrNull walked)).value ∧
      (v.Ordered → ((v.setAtPath path new).value = v ↔ ∃ found, v.atPath walked = .ok found)) := by
  obtain ⟨before, s, after, hsteps, hstop⟩ := exists_stoppedAt h
  have hfault : fault = .invalidStep ⟨before⟩ s.display := by
    have houtcome := hstop.outcome
    rw [← setAtPath, h] at houtcome
    exact Except.error.inj houtcome
  refine ⟨⟨before⟩, s.display, hfault, ⟨s :: after, hsteps.symm⟩, ?_, ?_⟩
  · rw [atPathOrNull_eq]
    exact hstop.left
  · intro hv
    simp only [atPath_eq_ok_iff]
    exact hstop.kept_iff hv

theorem setAtPath_kept_iff (hv : v.Ordered) {path : Path}
    (h : (v.setAtPath path new).outcome = .error fault) :
    (v.setAtPath path new).value = v ↔ v.HoldsPlaceOf fault := by
  obtain ⟨walked, step, rfl, _, _, hkept⟩ := setAtPath_failed h
  rw [hkept hv]
  constructor
  · rintro ⟨found, hfound⟩
    exact ⟨walked, step, found, rfl, hfound⟩
  · rintro ⟨_, _, found, hfault, hfound⟩
    cases hfault
    exact ⟨found, hfound⟩

end Value

namespace Described

variable {d : Described} {path : Path} {new : Value} {fault : Fault}

/-- Where the schema knows no such path, nothing is written. -/
theorem set_kept_iff (hd : d.raw.Ordered) (h : (d.set path new).2 = .error fault) :
    (d.set path new).1 = d ↔ d.schema.nodeAt path = .error fault ∨ d.raw.HoldsPlaceOf fault := by
  unfold set at h ⊢
  cases hnode : d.schema.nodeAt path with
  | error unknown =>
    simp only [hnode, Except.error.injEq] at h ⊢
    exact iff_of_true trivial (.inl h)
  | ok node =>
    simp only [hnode, reduceCtorEq, false_or] at h ⊢
    rw [← Value.setAtPath_kept_iff hd h]
    obtain ⟨raw, schema⟩ := d
    simp

end Described

theorem Resource.ImportRequest.passId_reports {r : ImportRequest} {path : Path} {answer : Imported}
    (h : (r.passId path answer).diagnostics ≠ answer.diagnostics) :
    ∃ fault, (answer.state.set path (.string r.id)).2 = .error fault ∧
      (r.passId path answer).state = (answer.state.set path (.string r.id)).1 := by
  unfold passId at h ⊢
  cases houtcome : (answer.state.set path (.string r.id)).2 with
  | ok _ => simp [houtcome] at h
  | error fault => exact ⟨fault, rfl, rfl⟩

/-- A failed write of a value, of an attribute or of the name that an import is given leaves alone
what it was to change if and only if the schema refused it, or the place where it stopped was
there. Otherwise the entries up to that place are made, and null stands there. -/
theorem failed_set_keeps_iff {d : Described} (hd : d.raw.Ordered) (path : Path) :
    (∀ new fault, (d.raw.setAtPath path new).outcome = .error fault →
      ∃ walked step, fault = .invalidStep walked step ∧ walked.steps <+: path.steps ∧
        (d.raw.setAtPath path new).value =
          (d.raw.setAtPath walked (d.raw.atPathOrNull walked)).value ∧
        ((d.raw.setAtPath path new).value = d.raw ↔ ∃ found, d.raw.atPath walked = .ok found)) ∧
    (∀ new fault, (d.set path new).2 = .error fault →
      ((d.set path new).1 = d ↔
        d.schema.nodeAt path = .error fault ∨ d.raw.HoldsPlaceOf fault)) ∧
    ∀ (r : Resource.ImportRequest) (answer : Resource.Imported), answer.state = d →
      (r.passId path answer).diagnostics ≠ answer.diagnostics →
      ∃ fault, (d.set path (.string r.id)).2 = .error fault ∧
        ((r.passId path answer).state = d ↔
          d.schema.nodeAt path = .error fault ∨ d.raw.HoldsPlaceOf fault) := by
  refine ⟨?_, ?_, ?_⟩
  · intro new fault h
    obtain ⟨walked, step, hfault, hprefix, hleft, hkept⟩ := Value.setAtPath_failed h
    exact ⟨walked, step, hfault, hprefix, hleft, hkept hd⟩
  · intro new fault h
    exact Described.set_kept_iff hd h
  · rintro r answer rfl hreports
    obtain ⟨fault, hfault, hstate⟩ := Resource.ImportRequest.passId_reports hreports
    refine ⟨fault, hfault, ?_⟩
    rw [hstate]
    exact Described.set_kept_iff hd hfault

/-- Rules in a list of blocks, each of which has an id. -/
def ruleBlocks : PlainSchema :=
  let rule : Block Unit := ⟨[("id", .computedString)], [], none⟩
  ⟨0, ⟨[], [("rules", ⟨rule, .list, 0, 0⟩)], none⟩⟩

/-- The id of the first rule. -/
def firstRuleId : Path := ((Path.root.field "rules").index 0).field "id"

/-- Where there are no rules, the write stops at the list, which was there. -/
theorem failed_set_keeps_no_rules :
    let d : Described := ⟨.map [("rules", .list [])], ruleBlocks⟩
    let fault : Fault := .invalidStep (Path.root.field "rules") (Step.index 0).display
    d.raw.Ordered ∧ (d.set firstRuleId (.string "x")).2 = .error fault ∧
      (d.set firstRuleId (.string "x")).1 = d := by
  have hord : (Value.map [("rules", .list [])]).Ordered := Value.ordered_entry.mpr (.list nofun)
  refine ⟨hord, rfl, ?_⟩
  exact ((failed_set_keeps_iff hord firstRuleId).2.1 _ _ rfl).mpr
    (.inr ⟨Path.root.field "rules", _, .list [], rfl, rfl⟩)

/-- Nothing was imported yet and no rule can be written: the list of rules is made, as null, and
stays. -/
theorem failed_set_leaves_rules :
    let r : Resource.ImportRequest := ⟨"x", .standard, ruleBlocks⟩
    r.start.state.raw = .null ∧
    (Value.null.setAtPath firstRuleId (.string "x")).value = .map [("rules", .null)] ∧
    (Value.null.setAtPath firstRuleId (.string "x")).outcome =
      .error (.invalidStep (Path.root.field "rules") (Step.index 0).display) ∧
    (r.start.state.set firstRuleId (.string "x")).2 =
      .error (.invalidStep (Path.root.field "rules") (Step.index 0).display) ∧
    (r.passId firstRuleId r.start).diagnostics.hasError = true ∧
    (r.passId firstRuleId r.start).state.raw = .map [("rules", .null)] :=
  ⟨rfl, rfl, rfl, rfl, rfl, rfl⟩

end ProviderKit
