import ProviderKit.Proofs.Plan.Visits
import ProviderKit.Schema.Build

-- A plan modifier that always fails stops its attribute and what is nested there, and nothing else.
-- Taking away what it stops is an exchange of that one attribute in its schema, and a walk over
-- plans cannot tell two attributes apart on which it acts alike.

namespace ProviderKit

variable {β σ : Type}

/-! ## One attribute for another -/

/-- The second attribute is the first one with `a'` in the place of one `a`: the attribute itself,
or one that is nested in it. -/
inductive Attribute.Exchanges (a a' : Attribute β) : Attribute β → Attribute β → Prop
  | here : Exchanges a a' a a'
  | nested {b : Attribute β} {mode : NestingMode} {before after : List (String × Attribute β)}
      {name : String} {x x' : Attribute β} :
      b.nested = some ⟨mode, before ++ (name, x) :: after⟩ → Exchanges a a' x x' →
      Exchanges a a' b { b with nested := some ⟨mode, before ++ (name, x') :: after⟩ }

/-- The second block is the first one with `a'` in the place of one `a`, among its attributes or in
a nested block. -/
inductive Block.Exchanges (a a' : Attribute β) : Block β → Block β → Prop
  | attr {b : Block β} {before after : List (String × Attribute β)} {name : String}
      {x x' : Attribute β} :
      b.attributes = before ++ (name, x) :: after → Attribute.Exchanges a a' x x' →
      Exchanges a a' b { b with attributes := before ++ (name, x') :: after }
  | block {b : Block β} {before after : List (String × NestedBlock β)} {name : String}
      {x : NestedBlock β} {c : Block β} :
      b.blocks = before ++ (name, x) :: after → Exchanges a a' x.block c →
      Exchanges a a' b { b with blocks := before ++ (name, { x with block := c }) :: after }

/-- The second schema is the first one with `a'` in the place of one `a`, at any depth. -/
def Schema.Exchanges (a a' : Attribute β) (s s' : Schema β) : Prop :=
  s'.version = s.version ∧ s.root.Exchanges a a' s'.root

/-! ## What a failing modifier stops -/

/-- Whatever it is asked and in whatever world, the modifier reports an error. -/
def PlanModifier.AlwaysFails (m : PlanModifier σ) : Prop :=
  ∀ request world, Diagnostics.hasError (m.modify request world).1.diagnostics = true

def Behaviour.withoutModifiers (b : Behaviour σ) : Behaviour σ := { b with planModifiers := [] }

/-- The attribute with these modifiers only, and none on what is nested in it. -/
def Attribute.withOnly (a : Attribute (Behaviour σ)) (modifiers : List (PlanModifier σ)) :
    Attribute (Behaviour σ) :=
  { a with
    nested := mapNested Behaviour.withoutModifiers a.nested
    behaviour := { a.behaviour with planModifiers := modifiers } }

section

open Modify

variable {r : ModifyRequest} {path : Path} {config state : Value}

/-- A step can be told by what follows it only for what it gives. -/
theorem Gives.bind_congr {α γ : Type} {m : ModifyM σ α} {f g : α → ModifyM σ γ} {P : α → Prop}
    (hm : Gives α m P) (h : ∀ a, P a → f a = g a) : m >>= f = m >>= g := by
  funext log world
  rw [modifyM_bind, modifyM_bind, h _ (hm log world)]

/-- What is declared after a modifier that fails is never run. -/
theorem runModifiers_of_alwaysFails {m : PlanModifier σ} (hm : m.AlwaysFails)
    (before after : List (PlanModifier σ)) (plan : Value) :
    runModifiers r path config state (before ++ m :: after) plan =
      runModifiers r path config state (before ++ [m]) plan := by
  induction before generalizing plan with
  | nil =>
    funext log world
    rw [List.nil_append, List.nil_append, runModifiers_cons, runModifiers_cons]
    simp only [hm _ world, if_true]
  | cons m' before ih =>
    funext log world
    rw [List.cons_append, List.cons_append, runModifiers_cons, runModifiers_cons]
    simp only [ih]

/-- The modifiers up to one that fails end with a failure, if not before it. -/
theorem runModifiers_fails {m : PlanModifier σ} (hm : m.AlwaysFails)
    (before : List (PlanModifier σ)) (plan : Value) :
    Gives _ (runModifiers r path config state (before ++ [m]) plan) (·.2 = true) := by
  induction before generalizing plan with
  | nil =>
    intro log world
    rw [List.nil_append, runModifiers_cons]
    simp only [hm _ world, if_true]
  | cons m' before ih =>
    intro log world
    rw [List.cons_append, runModifiers_cons]
    dsimp only
    split
    · rfl
    · exact ih _ _ _

/-- Nobody can tell an attribute with a modifier that always fails from the one without what comes
after that modifier, on the attribute or nested in it. -/
theorem visitAttribute_of_alwaysFails {a : Attribute (Behaviour σ)} {m : PlanModifier σ}
    {before after : List (PlanModifier σ)} (hm : m.AlwaysFails)
    (ha : a.behaviour.planModifiers = before ++ m :: after) (r : ModifyRequest) :
    visitAttribute r (a.withOnly (before ++ [m])) = visitAttribute r a := by
  funext path config state plan
  rw [visitAttribute_eq, visitAttribute_eq, ha, runModifiers_of_alwaysFails hm]
  refine (runModifiers_fails hm before plan).bind_congr fun done hdone => ?_
  obtain ⟨plan, failed⟩ := done
  cases hdone
  rfl

end

/-! ## Walks over attributes that act alike -/

section

open Modify

variable {r : ModifyRequest} {a a' : Attribute (Behaviour σ)}

theorem visitAttributes_exchange {x x' : Attribute (Behaviour σ)}
    (hx : visitAttribute r x' = visitAttribute r x)
    (before after : List (String × Attribute (Behaviour σ))) (name : String) :
    visitAttributes r (before ++ (name, x') :: after) =
      visitAttributes r (before ++ (name, x) :: after) := by
  funext path config state es
  induction before generalizing es with
  | nil => simp only [List.nil_append, visitAttributes, hx]
  | cons e before ih =>
    obtain ⟨k, b⟩ := e
    simp only [List.cons_append, visitAttributes, ih]

theorem visitBlocks_exchange {x : NestedBlock (Behaviour σ)} {c : Block (Behaviour σ)}
    (hx : visitBlock r c = visitBlock r x.block)
    (before after : List (String × NestedBlock (Behaviour σ))) (name : String) :
    visitBlocks r (before ++ (name, { x with block := c }) :: after) =
      visitBlocks r (before ++ (name, x) :: after) := by
  obtain ⟨b, mode, minItems, maxItems⟩ := x
  funext path config state es
  induction before generalizing es with
  | nil => simp only [List.nil_append, visitBlocks, hx]
  | cons e before ih =>
    obtain ⟨k, ⟨b', mode', minItems', maxItems'⟩⟩ := e
    simp only [List.cons_append, visitBlocks, ih]

theorem Attribute.Exchanges.visitAttribute (ha : visitAttribute r a' = visitAttribute r a)
    {b b' : Attribute (Behaviour σ)} (h : Attribute.Exchanges a a' b b') :
    Modify.visitAttribute r b' = Modify.visitAttribute r b := by
  induction h with
  | here => exact ha
  | @nested b mode before after name x x' hb _ ih =>
    funext path config state plan
    rw [visitAttribute_eq, visitAttribute_eq]
    simp only [hb, visitAttributes_exchange ih]

theorem Block.Exchanges.visitBlock (ha : visitAttribute r a' = visitAttribute r a)
    {b b' : Block (Behaviour σ)} (h : b.Exchanges a a' b') :
    Modify.visitBlock r b' = Modify.visitBlock r b := by
  induction h with
  | attr hb hx =>
    funext path config state plan
    rw [visitBlock_eq, visitBlock_eq, hb]
    simp only [visitAttributes_exchange (hx.visitAttribute ha)]
  | block hb _ ih =>
    funext path config state plan
    rw [visitBlock_eq, visitBlock_eq, hb]
    simp only [visitBlocks_exchange ih]

end

/-! ## Whole plans -/

/-- A modifier that always fails stops the later modifiers of its attribute and every modifier
nested below it, and nothing else: without all of these the run makes the same calls in the same
world, and comes to the same plan, replacements, diagnostics and private data. -/
theorem modifyPlan_without_stopped {s s' : ActiveSchema σ} {a : Attribute (Behaviour σ)}
    {m : PlanModifier σ} {before after : List (PlanModifier σ)}
    (ha : a.behaviour.planModifiers = before ++ m :: after) (hm : m.AlwaysFails)
    (hs : s.Exchanges a (a.withOnly (before ++ [m])) s') (r : ModifyRequest) :
    s'.modifyPlan r = s.modifyPlan r := by
  have hroot := hs.2.visitBlock (visitAttribute_of_alwaysFails hm ha r)
  unfold Schema.modifyPlan
  rw [hroot]

/-- A modifier that refuses every change. -/
def refusal : PlanModifier σ :=
  .custom "Refuses every change." fun request =>
    pure { request.unchanged with diagnostics := [.error "Refused" "The disk cannot be changed."] }

theorem alwaysFails_refusal : (refusal : PlanModifier σ).AlwaysFails := by
  intro request world
  rfl

/-- A disk that refuses to be changed before it says what else would follow from a change. -/
def refusingDisk : Attribute (Behaviour Nat) :=
  let size : Attribute (Behaviour Nat) :=
    ⟨.string, .optionalOnly, none, none, none, ⟨[.requiresReplace], none⟩⟩
  ⟨.dynamic, .optionalOnly, none, some ⟨.single, [("size", size)]⟩, none,
    ⟨[refusal, .requiresReplace], none⟩⟩

/-- A host with a disk and a name. -/
def hostBlock (disk : Attribute (Behaviour Nat)) : Block (Behaviour Nat) :=
  let name : Attribute (Behaviour Nat) :=
    ⟨.string, .optionalOnly, none, none, none, ⟨[.requiresReplace], none⟩⟩
  ⟨[("disk", disk), ("name", name)], [], none⟩

def hostSchema (disk : Attribute (Behaviour Nat)) : ActiveSchema Nat :=
  ⟨0, ⟨[], [("host", ⟨hostBlock disk, .list, 0, 0⟩)], none⟩⟩

theorem exchanges_hostSchema (a a' : Attribute (Behaviour Nat)) :
    (hostSchema a).Exchanges a a' (hostSchema a') := by
  have hdisk : (hostBlock a).attributes =
      [] ++ ("disk", a) :: (hostBlock a).attributes.tail := rfl
  have hhost : (hostSchema a).root.blocks =
      [] ++ ("host", ⟨hostBlock a, .list, 0, 0⟩) :: [] := rfl
  exact ⟨rfl, .block hhost (.attr hdisk .here)⟩

/-- The one host gets a larger disk and another name. -/
def rebuilding : ModifyRequest :=
  let host (size name : String) : Described :=
    ⟨.map [("host", .list [.map [("disk", .map [("size", .string size)]),
      ("name", .string name)]])], (hostSchema refusingDisk).plain⟩
  ⟨host "large" "b", host "large" "b", host "small" "a", ⟨.null, .empty⟩, .empty⟩

/-- Only the disk is stopped: its own replacement and that for its size are not asked for, while
the new name still asks for one. -/
theorem rebuilding_stops_at_disk :
    (refusal : PlanModifier Nat).AlwaysFails ∧
    (hostSchema refusingDisk).Exchanges refusingDisk (refusingDisk.withOnly [refusal])
      (hostSchema (refusingDisk.withOnly [refusal])) ∧
    (hostSchema (refusingDisk.withOnly [refusal])).modifyPlan rebuilding =
      (hostSchema refusingDisk).modifyPlan rebuilding ∧
    ((hostSchema refusingDisk).modifyPlan rebuilding 0).1.requiresReplace =
      [((Path.root.field "host").index 0).field "name"] ∧
    ((hostSchema refusingDisk).modifyPlan rebuilding 0).1.diagnostics =
      [.error "Refused" "The disk cannot be changed."] := by
  have hmodifiers :
      refusingDisk.behaviour.planModifiers = [] ++ refusal :: [.requiresReplace] := rfl
  have hexchanges := exchanges_hostSchema refusingDisk (refusingDisk.withOnly [refusal])
  exact ⟨alwaysFails_refusal, hexchanges,
    modifyPlan_without_stopped hmodifiers alwaysFails_refusal hexchanges rebuilding, rfl, rfl⟩

end ProviderKit
