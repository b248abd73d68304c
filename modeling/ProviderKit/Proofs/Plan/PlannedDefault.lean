import ProviderKit.Proofs.Schema.Rewritten
import ProviderKit.Proofs.Plan.Stages
import ProviderKit.Schema.Build
import ProviderKit.Server.Plan

-- What is planned where an attribute has a default and the configuration has nothing. Inside
-- a default nothing is configured either, so defaults of nested attributes take the place of
-- what the default says, and what is left to the provider becomes unknown in turn.

namespace ProviderKit

variable {β : Type}

/-! ## Where nothing is configured -/

/-- The configuration has null at the path, or nothing at all. -/
def Unset (config : Value) (path : Path) : Prop :=
  path.isRoot = false ∧
    (config.reach? path.steps = none ∨ config.reach? path.steps = some .null)

theorem Unset.configures {config : Value} {path : Path} (h : Unset config path) :
    config.configures path = false := by
  obtain ⟨_, h | h⟩ := h
  · exact Value.configures_of_reach?_eq_none h
  · cases hc : config.configures path with
    | false => rfl
    | true =>
      obtain ⟨v, hv, hn⟩ := (Value.configures_iff config path).mp hc
      rw [h] at hv
      cases hv
      cases hn

theorem Unset.push {config : Value} {path : Path} (h : Unset config path) (s : Step) :
    Unset config (path.push s) := by
  refine ⟨by simp [Path.isRoot], .inl ?_⟩
  obtain ⟨_, h | h⟩ := h
  · rw [Value.reach?_push, h]
    rfl
  · rw [Value.reach?_push, h]
    rfl

theorem unset_field {config : Value} {name : String}
    (h : (config.entryOrNull name).isNull = true) :
    Unset config (Path.root.push (.field name)) := by
  refine ⟨rfl, ?_⟩
  have hstep : config.reach? (Path.root.push (.field name)).steps = config.entry? name := by
    rw [Value.reach?_push]
    cases config <;> rfl
  rw [hstep]
  unfold Value.entryOrNull at h
  cases he : config.entry? name with
  | none => exact .inl rfl
  | some v =>
    rw [he] at h
    exact .inr (congrArg some (Value.eq_null_of_isNull h))

/-! ## The stages as functions -/

/-- The default of an attribute that has one. -/
def Node.ownDefault : Node β → Value → Value
  | .attr a, v => a.default.getD v
  | _, v => v

/-- Unknown at an attribute that is left to the provider. -/
def Node.forProvider : Node β → Value → Value
  | .attr a, v => if a.isLeftToProvider then .unknown else v
  | _, v => v

/-- An attribute's value after the first stage, where nothing is configured. -/
def Attribute.afterDefaults (a : Attribute β) (v : Value) : Value := a.rewritten Node.ownDefault v

/-- An attribute's value after the second stage, where nothing is configured. -/
def Attribute.afterUnknowns (a : Attribute β) (v : Value) : Value :=
  a.rewritten Node.forProvider (a.rewritten (fun n v => fillNode (.ok n) v) v)

theorem goesByNode_defaulting (config : Value) :
    GoesByNode (defaulting (β := β) config) (Unset config) Node.ownDefault := by
  refine ⟨fun s h => h.push s, fun {path n v u} hQ hu => ?_, fun hu => (Except.ok.inj hu).symm⟩
  cases hu
  cases n with
  | attr a =>
    rw [defaultAt, Node.ownDefault]
    cases a.default with
    | none => rfl
    | some d =>
      rw [hQ.configures]
      rfl
  | _ => rfl

theorem goesByNode_filling (Q : Path → Prop) (hQ : ∀ {path} s, Q path → Q (path.push s)) :
    GoesByNode (filling (β := β)) Q (fun n v => fillNode (.ok n) v) :=
  ⟨hQ, fun _ hu => (Except.ok.inj hu).symm,
    fun hu => (Except.ok.inj hu).symm.trans (fillNode_of_error _ _)⟩

theorem goesByNode_unknownAt (config : Value) :
    GoesByNode (unknownAt (β := β) config) (Unset config) Node.forProvider := by
  refine ⟨fun s h => h.push s, fun {path n v u} hQ hu => ?_, fun {path fault v u} hu => ?_⟩
  · have hu : unknownAt config path ((Position.described n).node path) v = .ok u := hu
    rw [eq_of_unknownAt hu, hQ.1, hQ.configures]
    cases n <;> rfl
  · unfold unknownAt at hu
    split at hu
    · cases hu; rfl
    · split at hu
      · cases hu; rfl
      · dsimp only at hu
        split at hu
        · cases hu; rfl
        · cases hu

/-! ## Attributes of the root -/

theorem exists_map_of_fillAbsent {s : Schema β} {v w : Value} (hv : v.isKnown = true)
    (h : s.fillAbsent v = .ok w) : ∃ es, w = .map es := by
  obtain ⟨u, hu, hbelow⟩ := fillAbsent_eq_ok_iff.mp h
  cases v
  case map es =>
    rw [filling, Position.node, fillNode_map] at hu
    cases hu
    obtain ⟨fs, _, rfl, _⟩ := rebuildsBelow_of_map_iff.mp hbelow
    exact ⟨fs, rfl⟩
  all_goals
    rw [filling, fillNode_of_not_map _ rfl] at hu
    cases hu
  case list xs =>
    obtain ⟨_, _, _, hc, _⟩ := rebuildsBelow_of_list_iff.mp hbelow
    cases hc
  case null | unknown => cases hv
  all_goals
    have hdemand := ((rebuildsBelow_of_atom_iff rfl).mp hbelow).2 rfl
    cases hdemand

/-- Every attribute of the root has an entry in what was filled out. -/
theorem exists_entry_of_fillAbsent {s : Schema β} {v : Value} {es : List (String × Value)}
    (h : s.fillAbsent v = .ok (.map es)) {name : String} {a : Attribute β}
    (ha : Keyed.get? s.root.attributes name = some a) : ∃ x, Keyed.get? es name = some x := by
  have hfilled := fillNode_of_rebuilds (fillAbsent_eq_ok_iff.mp h) .root
  rw [Position.node, fillNode_map, Value.map.injEq] at hfilled
  have hname : name ∈ (Node.block s.root).names :=
    List.mem_append_left _ (Keyed.mem_keys_of_get? ha)
  rw [← hfilled, get?_fillNames, if_pos hname]
  cases Keyed.get? es name with
  | none => exact ⟨.null, rfl⟩
  | some x => exact ⟨x, rfl⟩

/-- A walk that leaves the root alone rebuilds the entry of each attribute. -/
theorem Rebuilds.attribute_of_root {visit : Visit β (Except Fault)} {b : Block β} {v w : Value}
    {es : List (String × Value)} (hroot : visit .root (.ok (.block b)) v = .ok (.map es))
    (h : Rebuilds visit .root (.described (.block b)) v w) {name : String} {a : Attribute β}
    (ha : Keyed.get? b.attributes name = some a) {x : Value} (hx : Keyed.get? es name = some x) :
    ∃ fs y, w = .map fs ∧ Keyed.get? fs name = some y ∧
      Rebuilds visit (Path.root.push (.field name)) (.described (.attr a)) x y := by
  obtain ⟨u, hu, hbelow⟩ := h
  rw [Position.node, hroot] at hu
  cases hu
  obtain ⟨fs, child, rfl, hc, hentries⟩ := rebuildsBelow_of_map_iff.mp hbelow
  cases hc
  have hrel := hentries.get? name
  rw [hx] at hrel
  obtain ⟨y, hy, hr⟩ := exists_of_rel_some_left hrel
  simp only [Node.member?, ha] at hr
  exact ⟨fs, y, rfl, hy, hr⟩

/-- The first stage plans the default, with the defaults of what is nested in it. -/
theorem afterDefaults_of_applyDefaults {s : Schema β} {config plan w : Value}
    (hknown : plan.isKnown = true) (h : s.applyDefaults config plan = .ok w) {name : String}
    {a : Attribute β} (ha : Keyed.get? s.root.attributes name = some a)
    (hunset : (config.entryOrNull name).isNull = true) :
    ∃ es v, w = .map es ∧ ∃ x, Keyed.get? es name = some x ∧ x = a.afterDefaults v := by
  obtain ⟨filled, hfill, hwalk⟩ := applyDefaults_eq_ok_iff.mp h
  obtain ⟨es, rfl⟩ := exists_map_of_fillAbsent hknown hfill
  obtain ⟨x, hx⟩ := exists_entry_of_fillAbsent hfill ha
  obtain ⟨fs, y, rfl, hy, hr⟩ := hwalk.attribute_of_root rfl ha hx
  exact ⟨fs, x, rfl, y, hy,
    (goesByNode_defaulting config).eq_rewritten (unset_field hunset) hr⟩

/-- The second stage fills a planned attribute out and makes what the provider decides
unknown. -/
theorem afterUnknowns_of_markUnknowns {s : Schema β} {config : Value} {es : List (String × Value)}
    {w : Value} (h : s.markUnknowns config (.map es) = .ok w) {name : String} {a : Attribute β}
    (ha : Keyed.get? s.root.attributes name = some a) {x : Value}
    (hx : Keyed.get? es name = some x) (hunset : (config.entryOrNull name).isNull = true) :
    ∃ y, w.entry? name = some (a.rewritten Node.forProvider y) ∧ x.Padded y ∧
      a.rewritten Node.forProvider y = a.afterUnknowns x := by
  obtain ⟨filled, hfill, hwalk⟩ := markUnknowns_eq_ok_iff.mp h
  obtain ⟨fs, hfs, hfilled⟩ := fillNode_map_of_node (.ok (.block s.root)) es
  obtain ⟨gs, y, rfl, hy, hr⟩ := (fillAbsent_eq_ok_iff.mp hfill).attribute_of_root
    (congrArg Except.ok hfs) ha (hfilled.get?_of_some hx)
  obtain ⟨hs, z, rfl, hz, hr'⟩ := hwalk.attribute_of_root rfl ha hy
  have hyx := (goesByNode_filling (fun _ => True) (fun _ _ => trivial)).eq_rewritten trivial hr
  have hzy := (goesByNode_unknownAt config).eq_rewritten (unset_field hunset) hr'
  refine ⟨y, ?_, hr.padded_of_filled, ?_⟩
  · rw [← hzy]
    exact hz
  · rw [Attribute.afterUnknowns, ← hyx]

/-- Nothing nested in the attribute has a default or is decided by the provider. -/
def Attribute.isPlainInside (a : Attribute β) : Bool :=
  nestedEvery (Node.ifAttribute fun b => !b.hasDefault && !b.flags.computed) a.nested

theorem afterDefaults_of_isPlainInside {a : Attribute β} {d : Value} (hd : a.default = some d)
    (h : a.isPlainInside = true) (v : Value) : a.afterDefaults v = d := by
  rw [Attribute.afterDefaults, a.rewritten_eq, Node.ownDefault, hd]
  refine rewrittenBelow_eq_self (fun b v hb => ?_) (fun _ _ => rfl) h d
  have hb : (!b.hasDefault && !b.flags.computed) = true := hb
  have hnone : b.default = none := by
    cases hbd : b.default with
    | none => rfl
    | some _ => simp [Attribute.hasDefault, hbd] at hb
  rw [Node.ownDefault, hnone]
  rfl

theorem forProvider_of_isPlainInside {a : Attribute β} (hd : a.hasDefault = true)
    (h : a.isPlainInside = true) (v : Value) : a.rewritten Node.forProvider v = v := by
  have hown : Node.forProvider (.attr a) v = v := by
    simp [Node.forProvider, Attribute.isLeftToProvider, hd]
  rw [a.rewritten_eq, hown]
  refine rewrittenBelow_eq_self (fun b v hb => ?_) (fun _ _ => rfl) h v
  have hb : (!b.hasDefault && !b.flags.computed) = true := hb
  have hcomputed : b.flags.computed = false := by
    simpa using (Bool.and_eq_true_iff.mp hb).2
  simp [Node.forProvider, Attribute.isLeftToProvider, hcomputed]

namespace Server

theorem default_planned_of_isKnown {c : Change} (hknown : c.proposed.raw.isKnown = true)
    (hok : (draft c).2 = none) {name : String} {a : Attribute Unit} {d : Value}
    (ha : Keyed.get? c.proposed.schema.root.attributes name = some a) (hd : a.default = some d)
    (hunset : (c.config.raw.entryOrNull name).isNull = true) :
    ∃ defaulted planned,
      c.proposed.schema.applyDefaults c.config.raw c.proposed.raw = .ok defaulted ∧
      Value.entry? (draft c).1 name = some planned ∧
      planned = (if defaulted.same c.prior.raw then a.afterDefaults d
        else a.afterUnknowns (a.afterDefaults d)) ∧
      (a.isPlainInside = true → d.Padded planned) := by
  have hnull : c.proposed.isNull = false := (Value.isKnown_iff.mp hknown).1
  have hown : ∀ v, a.afterDefaults v = a.afterDefaults d := by
    intro v
    rw [Attribute.afterDefaults, Attribute.afterDefaults, a.rewritten_eq, a.rewritten_eq,
      Node.ownDefault, Node.ownDefault, hd]
    rfl
  unfold draft at hok ⊢
  simp only [hnull, Bool.false_eq_true, if_false] at hok ⊢
  cases happly : c.proposed.schema.applyDefaults c.config.raw c.proposed.raw with
  | error fault => rw [happly] at hok; cases hok
  | ok defaulted =>
    rw [happly] at hok
    obtain ⟨es, v, rfl, x, hx, hxv⟩ := afterDefaults_of_applyDefaults hknown happly ha hunset
    rw [hown] at hxv
    simp only [Value.isNull, Bool.false_or] at hok ⊢
    refine ⟨.map es, ?_⟩
    by_cases hsame : (Value.map es).same c.prior.raw = true
    · simp only [if_pos hsame]
      refine ⟨x, trivial, hx, hxv, fun hplain => ?_⟩
      rw [hxv, afterDefaults_of_isPlainInside hd hplain]
      exact .refl d
    · simp only [if_neg hsame] at hok ⊢
      cases hmark : c.proposed.schema.markUnknowns c.config.raw (.map es) with
      | error fault => rw [hmark] at hok; cases hok
      | ok marked =>
        obtain ⟨y, hy, hpad, hafter⟩ := afterUnknowns_of_markUnknowns hmark ha hx hunset
        refine ⟨_, trivial, hy, by rw [hafter, hxv], fun hplain => ?_⟩
        rw [hxv, afterDefaults_of_isPlainInside hd hplain] at hpad
        rw [forProvider_of_isPlainInside (by simp [Attribute.hasDefault, hd]) hplain]
        exact hpad

/-- Of a resource that is not known at all, nothing is planned. -/
theorem draft_of_unknown {c : Change} (h : c.proposed.raw = .unknown) : (draft c).1 = .unknown := by
  unfold draft Described.isNull
  simp only [h, Value.isNull, Bool.false_eq_true, if_false]
  cases happly : c.proposed.schema.applyDefaults c.config.raw .unknown with
  | error fault => rfl
  | ok defaulted =>
    obtain ⟨filled, hf, hwalk⟩ := applyDefaults_eq_ok_iff.mp happly
    rw [(fillAbsent_eq_ok_iff.mp hf).eq_of_filled_atom rfl] at hwalk
    have hdefaulted := hwalk.eq_of_visit_atom rfl (fun u hu => (Except.ok.inj hu).symm)
    subst hdefaulted
    simp only [Bool.false_or]
    by_cases hsame : Value.unknown.same c.prior.raw = true
    · rw [if_pos hsame]
    · rw [if_neg hsame]
      cases hmark : c.proposed.schema.markUnknowns c.config.raw .unknown with
      | error fault => rfl
      | ok marked =>
        obtain ⟨filled, hf, hwalk⟩ := markUnknowns_eq_ok_iff.mp hmark
        rw [(fillAbsent_eq_ok_iff.mp hf).eq_of_filled_atom rfl] at hwalk
        exact hwalk.eq_of_visit_atom rfl (fun u hu => (Except.ok.inj hu).symm)

/-- A default is planned where the configuration has nothing: with the defaults of what is
nested in it, and, if anything changes at all, with what the provider decides in it made
unknown. Where nothing nested has a default or is decided by the provider, it is planned as it
is, up to null entries. Of a resource that is not known at all, nothing is planned. -/
theorem default_planned (c : Change) (hnull : c.proposed.isNull = false)
    (hok : (draft c).2 = none) (name : String) {a : Attribute Unit} {d : Value}
    (ha : Keyed.get? c.proposed.schema.root.attributes name = some a) (hd : a.default = some d)
    (hunset : (c.config.raw.entryOrNull name).isNull = true) :
    (c.proposed.raw = .unknown ∧ (draft c).1 = .unknown) ∨
    ∃ defaulted planned,
      c.proposed.schema.applyDefaults c.config.raw c.proposed.raw = .ok defaulted ∧
      Value.entry? (draft c).1 name = some planned ∧
      planned = (if defaulted.same c.prior.raw then a.afterDefaults d
        else a.afterUnknowns (a.afterDefaults d)) ∧
      (a.isPlainInside = true → d.Padded planned) := by
  cases hunknown : c.proposed.raw.isUnknown with
  | true =>
    have hraw := Value.eq_unknown_of_isUnknown hunknown
    exact .inl ⟨hraw, draft_of_unknown hraw⟩
  | false =>
    have hknown : c.proposed.raw.isKnown = true := Value.isKnown_iff.mpr ⟨hnull, hunknown⟩
    exact .inr (default_planned_of_isKnown hknown hok ha hd hunset)

/-- A default for an object of two attributes: the provider decides one of them, and the other
has a default of its own. -/
def profileDefault : Value := .map [("id", .string "none"), ("theme", .string "dark")]

def profileSchema : PlainSchema :=
  let theme : Attribute Unit := Attribute.optionalString.withDefault (.string "light")
  let profile : Attribute Unit :=
    Attribute.ofNested .single [("id", Attribute.computedString), ("theme", theme)] .optionalOnly
  ⟨0, ⟨[("profile", profile.withDefault profileDefault)], [], none⟩⟩

/-- The creation of a resource whose profile nobody configured. -/
def profileCreation : Change :=
  let unset : Described := ⟨.map [("profile", .null)], profileSchema⟩
  ⟨unset, ⟨.null, profileSchema⟩, unset, ⟨.null, .empty⟩, .standard⟩

theorem profile_planned :
    profileCreation.proposed.isNull = false ∧ (draft profileCreation).2 = none ∧
    (profileCreation.config.raw.entryOrNull "profile").isNull = true ∧
    ∃ (a : Attribute Unit) (defaulted planned : Value),
      Keyed.get? profileCreation.proposed.schema.root.attributes "profile" = some a ∧
      a.default = some profileDefault ∧
      profileCreation.proposed.schema.applyDefaults profileCreation.config.raw
        profileCreation.proposed.raw = .ok defaulted ∧
      Value.entry? (draft profileCreation).1 "profile" = some planned ∧
      planned = (if defaulted.same profileCreation.prior.raw then a.afterDefaults profileDefault
        else a.afterUnknowns (a.afterDefaults profileDefault)) ∧
      (a.isPlainInside = true → profileDefault.Padded planned) := by
  rcases default_planned profileCreation rfl rfl "profile" rfl rfl rfl with
    ⟨hunknown, _⟩ | ⟨defaulted, planned, h⟩
  · cases hunknown
  · exact ⟨rfl, rfl, rfl, _, defaulted, planned, rfl, rfl, h⟩

/-- The planned profile is not its default: the one attribute is unknown, the other has the
default of its own. -/
theorem profile_differs_from_default :
    draft profileCreation =
      (.map [("profile", .map [("id", .unknown), ("theme", .string "light")])], none) ∧
    ¬ profileDefault.Padded (.map [("id", .unknown), ("theme", .string "light")]) := by
  refine ⟨rfl, fun h => ?_⟩
  cases h with
  | map _ hentries _ =>
    have hid := hentries "id" _ _ rfl rfl
    cases hid

end Server

end ProviderKit
