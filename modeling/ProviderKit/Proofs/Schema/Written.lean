import ProviderKit.Proofs.Schema.Every
import ProviderKit.Proofs.Schema.Nesting
import ProviderKit.Proofs.Value.Written
import ProviderKit.Schema.Codec

-- Schemas as documents: a schema that was read from a document can be written and read again,
-- and comes back as it was. What may get lost in writing is only a default that a document
-- cannot say, and a version past the signed 64-bit range.

namespace ProviderKit

variable {β : Type}

/-! ## Simple parts -/

@[simp] theorem Keyed.get?_append {α : Type} (a b : Keyed α) (k : String) :
    get? (a ++ b) k = (get? a k).or (get? b k) := by
  induction a with
  | nil => rfl
  | cons e rest ih =>
    obtain ⟨l, x⟩ := e
    rw [List.cons_append, get?_cons, get?_cons, ih]
    split <;> rfl

namespace Json

@[simp] theorem get?_entryIf {α : Type} (key : String) (write : α → Json) (o : Option α) (k : String) :
    Keyed.get? (entryIf key write o) k = if key = k then o.map write else none := by
  cases o with
  | none => exact (ite_self none).symm
  | some a => rfl

@[simp] theorem get?_entriesIf (key : String) (entries : List (String × Json)) (k : String) :
    Keyed.get? (entriesIf key entries) k =
      if key = k ∧ entries ≠ [] then some (.object entries) else none := by
  cases entries with
  | nil => exact (if_neg (fun h => h.2 rfl)).symm
  | cons e rest => simp [entriesIf, Keyed.get?_cons]

theorem asInt?_ofInt {n : Int} (h : InAny64 n) : (ofInt n).asInt? = some n := by
  rw [ofInt, Number.ofInt?, dif_pos h]
  rfl

/-- A text that is written when there is one is read as it was. -/
theorem optionalText?_of_get? {entries : Keyed Json} {key : String} {o : Option String}
    (h : Keyed.get? entries key = o.map .string) : optionalText? entries key = some o := by
  rw [optionalText?, h]
  cases o <;> rfl

theorem count?_of_asInt? {entries : Keyed Json} {key : String} {j : Json} {n : Int}
    (h : Keyed.get? entries key = some j) (hj : j.asInt? = some n) (hn : InUnsigned32 n) :
    count? entries key = some (UInt32.ofNat n.toNat) := by
  simp only [count?, h, hj]
  exact if_pos hn

theorem count?_of_get? {entries : Keyed Json} {key : String} {n : UInt32}
    (h : Keyed.get? entries key = some (ofNat n.toNat)) : count? entries key = some n := by
  have hn : n.toNat < 4294967296 := n.toNat_lt
  have hrange : InAny64 (n.toNat : Int) := by constructor <;> omega
  have hcount : InUnsigned32 (n.toNat : Int) := by constructor <;> omega
  rw [count?_of_asInt? h (asInt?_ofInt hrange) hcount, Int.toNat_natCast, UInt32.ofNat_toNat]

theorem signed?_of_get? {entries : Keyed Json} {key : String} {n : Int} (hn : InSigned64 n)
    (h : Keyed.get? entries key = some (ofInt n)) : signed? entries key = some n := by
  have hint : (ofInt n).asInt? = some n := asInt?_ofInt ⟨hn.1, by have := hn.2; omega⟩
  simp only [signed?, h, hint]
  exact if_pos hn

theorem inSigned64_of_signed? {entries : Keyed Json} {key : String} {n : Int}
    (h : signed? entries key = some n) : InSigned64 n := by
  unfold signed? at h
  split at h
  · cases h
    decide
  · split at h
    · unfold signed64? at h
      split at h
      · next hn =>
        cases h
        exact hn
      · cases h
    · cases h

end Json

theorem NestingMode.among?_of_get? {entries : Keyed Json} {mode : NestingMode}
    (h : Keyed.get? entries "nesting_mode" = some (.string mode.name)) :
    among? entries = some mode := by
  rw [among?, h]
  cases mode <;> rfl

mutual
/-- A type is read back as it was. -/
theorem AttributeType.ofJson?_toJson : (t : AttributeType) → ofJson? t.toJson = some t
  | .string | .int64 | .float64 | .number | .bool | .dynamic => rfl
  | .list t | .set t | .map t => by
    simp [toJson, ofJson?, AttributeType.ofJson?_toJson t]
  | .object fields => by
    simp [toJson, ofJson?, AttributeType.fieldsOf?_fieldsToJson fields]

theorem AttributeType.fieldsOf?_fieldsToJson : (fields : List (String × AttributeType)) →
    fieldsOf? (fieldsToJson fields) = some fields
  | [] => rfl
  | (name, t) :: rest => by
    simp [fieldsToJson, fieldsOf?, AttributeType.ofJson?_toJson t,
      AttributeType.fieldsOf?_fieldsToJson rest]
end

/-! ## What can be written -/

/-- A document says that the default is there, and what it is. -/
def Attribute.hasWritableDefault (a : Attribute β) : Bool :=
  match a.default with
  | none => true
  | some v => !v.isNull && v.isWritable

/-- The schema can be written: its version fits, and so do its defaults at every depth. -/
structure Schema.Writable (s : Schema β) : Prop where
  version : InSigned64 s.version
  defaults : s.every (Node.ifAttribute Attribute.hasWritableDefault) = true

/-! ## What is read can be written -/

theorem exists_of_defaultAmong {entries : Keyed Json} {v : Value}
    (h : defaultAmong entries = some v) : ∃ j, j ≠ .null ∧ Value.ofJson j = v := by
  unfold defaultAmong at h
  split at h
  · cases h
  · cases h
  · next j hnull hj =>
    cases h
    exact ⟨j, fun hj => hnull (by rw [hj]), rfl⟩

theorem hasWritableDefault_defaultAmong (entries : Keyed Json) (a : Attribute β)
    (h : a.default = defaultAmong entries) : a.hasWritableDefault = true := by
  rw [Attribute.hasWritableDefault, h]
  cases hdefault : defaultAmong entries with
  | none => rfl
  | some v =>
    obtain ⟨j, hnull, rfl⟩ := exists_of_defaultAmong hdefault
    have hne : (Value.ofJson j).isNull = false := by
      cases hv : Value.ofJson j with
      | null => exact absurd (Value.ofJson_eq_null hv) hnull
      | _ => rfl
    simp [hne, Value.isWritable_ofJson]

/-! ## Where the parts of a document are read from -/

theorem nestedAmong?_eq (entries : Keyed Json) :
    nestedAmong? entries =
      match Keyed.get? entries "nested" with
      | none => some none
      | some j => nestedOf? j := by
  induction entries with
  | nil => rfl
  | cons e rest ih =>
    obtain ⟨key, j⟩ := e
    rw [nestedAmong?, ih, Keyed.get?_cons]
    by_cases hkey : key = "nested"
    · rw [if_pos hkey, if_pos hkey]
    · rw [if_neg hkey, if_neg hkey]

theorem attributesAmong?_eq (entries : Keyed Json) :
    attributesAmong? entries =
      match Keyed.get? entries "attributes" with
      | none => some none
      | some (.object attributes) => (attributesOf? attributes).map some
      | some _ => none := by
  induction entries with
  | nil => rfl
  | cons e rest ih =>
    obtain ⟨key, j⟩ := e
    rw [attributesAmong?.eq_def, Keyed.get?_cons]
    by_cases hkey : key = "attributes"
    · simp only [if_pos hkey]
      cases j <;> rfl
    · simp only [if_neg hkey]
      exact ih

theorem blocksAmong?_eq (entries : Keyed Json) :
    blocksAmong? entries =
      match Keyed.get? entries "blocks" with
      | none => some []
      | some (.object blocks) => blocksOf? blocks
      | some _ => none := by
  induction entries with
  | nil => rfl
  | cons e rest ih =>
    obtain ⟨key, j⟩ := e
    rw [blocksAmong?.eq_def, Keyed.get?_cons]
    by_cases hkey : key = "blocks"
    · simp only [if_pos hkey]
      cases j <;> rfl
    · simp only [if_neg hkey]
      exact ih

/-! ## What is read holds -/

section

variable {P : Json → Prop}

mutual
theorem holds_of_parts (atom : ∀ j, j.asItems? = none → j.asEntries? = none → P j)
    (array : ∀ xs, (∀ x ∈ xs, P x) → P (.array xs))
    (object : ∀ es : Keyed Json, (∀ e ∈ es, P e.2) → P (.object es)) : (j : Json) → P j
  | .null | .bool _ | .number _ | .string _ => atom _ rfl rfl
  | .array xs => array xs (items_hold_of_parts atom array object xs)
  | .object es => object es (entries_hold_of_parts atom array object es)

theorem items_hold_of_parts (atom : ∀ j, j.asItems? = none → j.asEntries? = none → P j)
    (array : ∀ xs, (∀ x ∈ xs, P x) → P (.array xs))
    (object : ∀ es : Keyed Json, (∀ e ∈ es, P e.2) → P (.object es)) :
    (xs : List Json) → ∀ x ∈ xs, P x
  | [], _, h => absurd h List.not_mem_nil
  | y :: ys, x, h => by
    rcases List.mem_cons.mp h with h | h
    · exact h ▸ holds_of_parts atom array object y
    · exact items_hold_of_parts atom array object ys x h

theorem entries_hold_of_parts (atom : ∀ j, j.asItems? = none → j.asEntries? = none → P j)
    (array : ∀ xs, (∀ x ∈ xs, P x) → P (.array xs))
    (object : ∀ es : Keyed Json, (∀ e ∈ es, P e.2) → P (.object es)) :
    (es : List (String × Json)) → ∀ e ∈ es, P e.2
  | [], _, h => absurd h List.not_mem_nil
  | (_, y) :: fs, e, h => by
    rcases List.mem_cons.mp h with h | h
    · exact h ▸ holds_of_parts atom array object y
    · exact entries_hold_of_parts atom array object fs e h
end

end

/-- Induction over the parts of a document. -/
@[elab_as_elim]
theorem Json.partsInduction {motive : Json → Prop} (j : Json)
    (atom : ∀ j, j.asItems? = none → j.asEntries? = none → motive j)
    (array : ∀ xs, (∀ x ∈ xs, motive x) → motive (.array xs))
    (object : ∀ es : Keyed Json, (∀ e ∈ es, motive e.2) → motive (.object es)) : motive j :=
  holds_of_parts atom array object j

theorem exists_of_attributesOf? {entries : List (String × Json)}
    {attributes : List (String × Attribute Unit)} (h : attributesOf? entries = some attributes) :
    ∀ f ∈ attributes, ∃ e ∈ entries, Attribute.ofJson? e.2 = some f.2 := by
  induction entries generalizing attributes with
  | nil =>
    cases h
    exact nofun
  | cons e rest ih =>
    simp only [attributesOf?, Option.bind_eq_bind, Option.bind_eq_some_iff, Option.pure_def,
      Option.some.injEq] at h
    obtain ⟨a, ha, others, hothers, rfl⟩ := h
    intro f hf
    rcases List.mem_cons.mp hf with rfl | hf
    · exact ⟨e, List.mem_cons_self, ha⟩
    · obtain ⟨e', he', hread⟩ := ih hothers f hf
      exact ⟨e', List.mem_cons_of_mem _ he', hread⟩

theorem exists_of_blocksOf? {entries : List (String × Json)}
    {blocks : List (String × NestedBlock Unit)} (h : blocksOf? entries = some blocks) :
    ∀ f ∈ blocks, ∃ e ∈ entries, NestedBlock.ofJson? e.2 = some f.2 := by
  induction entries generalizing blocks with
  | nil =>
    cases h
    exact nofun
  | cons e rest ih =>
    simp only [blocksOf?, Option.bind_eq_bind, Option.bind_eq_some_iff, Option.pure_def,
      Option.some.injEq] at h
    obtain ⟨b, hb, others, hothers, rfl⟩ := h
    intro f hf
    rcases List.mem_cons.mp hf with rfl | hf
    · exact ⟨e, List.mem_cons_self, hb⟩
    · obtain ⟨e', he', hread⟩ := ih hothers f hf
      exact ⟨e', List.mem_cons_of_mem _ he', hread⟩

theorem exists_of_attributesAmong? {entries : Keyed Json}
    {attributes : List (String × Attribute Unit)}
    (h : attributesAmong? entries = some (some attributes)) :
    ∃ fs, ("attributes", .object fs) ∈ entries ∧ attributesOf? fs = some attributes := by
  rw [attributesAmong?_eq] at h
  split at h
  · cases h
  · next fs hget =>
    obtain ⟨as, has, hsome⟩ := Option.map_eq_some_iff.mp h
    cases hsome
    exact ⟨fs, Keyed.mem_of_get? hget, has⟩
  · cases h

section

variable {p : Attribute Unit → Bool}
  (hp : ∀ (entries : Keyed Json) (a : Attribute Unit), a.default = defaultAmong entries → p a = true)

/-- Whatever is read from the document as an attribute, as nested attributes or as a dictionary of
attributes has the property at every attribute. -/
structure Json.ReadsEvery (p : Attribute Unit → Bool) (j : Json) : Prop where
  single : ∀ a, Attribute.ofJson? j = some a → a.every (Node.ifAttribute p) = true
  nested : ∀ n, nestedOf? j = some n → nestedEvery (Node.ifAttribute p) n = true
  attributes : ∀ entries as, j = .object entries → attributesOf? entries = some as →
    attributesEvery (Node.ifAttribute p) as = true

theorem nestedOf?_array {xs : List Json} {n : Option (NestedAttributes Unit)}
    (h : nestedOf? (.array xs) = some n) : ∃ entries, .object entries ∈ xs ∧
      ∃ mode as, attributesOf? entries = some as ∧ n = some ⟨mode, as⟩ := by
  unfold nestedOf? at h
  split at h
  · next heq => cases heq
  · next heq => cases heq
  · next mode entries heq =>
    cases heq
    simp only [Option.bind_eq_bind, Option.bind_eq_some_iff, Option.pure_def,
      Option.some.injEq] at h
    obtain ⟨mode, -, as, has, rfl⟩ := h
    exact ⟨entries, by simp, mode, as, has, rfl⟩
  · cases h

include hp

theorem Json.readsEvery (j : Json) : j.ReadsEvery p := by
  induction j using Json.partsInduction with
  | atom j hitems hentries =>
    cases j
    case array | object => contradiction
    case null =>
      refine ⟨nofun, fun n h => ?_, nofun⟩
      cases h
      rfl
    all_goals exact ⟨nofun, nofun, nofun⟩
  | array xs ih =>
    refine ⟨nofun, fun n h => ?_, nofun⟩
    obtain ⟨entries, hmem, mode, as, has, rfl⟩ := nestedOf?_array h
    exact (ih _ hmem).attributes entries as rfl has
  | object entries ih =>
    refine ⟨fun a h => ?_, fun n h => ?_, fun _ as heq h => ?_⟩
    · simp only [Attribute.ofJson?, Option.bind_eq_bind, Option.bind_eq_some_iff, Option.pure_def,
        Option.some.injEq] at h
      obtain ⟨type, -, flags, -, description, -, nested, hnested, rfl⟩ := h
      refine (Attribute.every_iff _).mpr ⟨hp entries _ rfl, ?_⟩
      rw [nestedAmong?_eq] at hnested
      split at hnested
      · cases hnested
        rfl
      · next j hget => exact (ih _ (Keyed.mem_of_get? hget)).nested _ hnested
    · simp only [nestedOf?, Option.bind_eq_bind, Option.bind_eq_some_iff, Option.pure_def,
        Option.some.injEq] at h
      obtain ⟨mode, -, attributes?, hattributes?, attributes, rfl, rfl⟩ := h
      obtain ⟨fs, hmem, hread⟩ := exists_of_attributesAmong? hattributes?
      exact (ih _ hmem).attributes fs _ rfl hread
    · cases heq
      refine attributesEvery_iff.mpr (fun f hf => ?_)
      obtain ⟨e, he, hread⟩ := exists_of_attributesOf? h f hf
      exact (ih e he).single _ hread

theorem attributesEvery_of_attributesAmong? {entries : Keyed Json}
    {attributes? : Option (List (String × Attribute Unit))}
    (h : attributesAmong? entries = some attributes?) :
    attributesEvery (Node.ifAttribute p) (attributes?.getD []) = true := by
  cases attributes? with
  | none => rfl
  | some attributes =>
    obtain ⟨fs, _, hread⟩ := exists_of_attributesAmong? h
    exact (Json.readsEvery hp (.object fs)).attributes fs attributes rfl hread

/-- The entries of a block say what its attributes and nested blocks are. -/
theorem blockEvery_of_among? {entries : Keyed Json}
    (hblocks : ∀ fs bs, ("blocks", .object fs) ∈ entries → blocksOf? fs = some bs →
      blocksEvery (Node.ifAttribute p) bs = true)
    {attributes? : Option (List (String × Attribute Unit))}
    {blocks : List (String × NestedBlock Unit)} (ha : attributesAmong? entries = some attributes?)
    (hb : blocksAmong? entries = some blocks) (description : Option String) :
    (Block.mk (attributes?.getD []) blocks description).every (Node.ifAttribute p) = true := by
  refine (Block.every_iff _).mpr ⟨rfl, attributesEvery_of_attributesAmong? hp ha, ?_⟩
  rw [blocksAmong?_eq] at hb
  split at hb
  · cases hb
    rfl
  · next fs hget => exact hblocks fs _ (Keyed.mem_of_get? hget) hb
  · cases hb

/-- The same of what is read as a nested block, or as a dictionary of nested blocks. -/
structure Json.ReadsEveryBlock (p : Attribute Unit → Bool) (j : Json) : Prop where
  single : ∀ b, NestedBlock.ofJson? j = some b → b.block.every (Node.ifAttribute p) = true
  blocks : ∀ entries bs, j = .object entries → blocksOf? entries = some bs →
    blocksEvery (Node.ifAttribute p) bs = true

theorem Json.readsEveryBlock (j : Json) : j.ReadsEveryBlock p := by
  induction j using Json.partsInduction with
  | atom j hitems hentries =>
    cases j
    case array | object => contradiction
    all_goals exact ⟨nofun, nofun⟩
  | array xs ih => exact ⟨nofun, nofun⟩
  | object entries ih =>
    refine ⟨fun b h => ?_, fun _ bs heq h => ?_⟩
    · simp only [NestedBlock.ofJson?, Option.bind_eq_bind, Option.bind_eq_some_iff,
        Option.pure_def, Option.some.injEq] at h
      obtain ⟨attributes?, ha, blocks, hb, description, -, mode, -, low, -, high, -, rfl⟩ := h
      exact blockEvery_of_among? hp (fun fs bs hmem hread => (ih _ hmem).blocks fs bs rfl hread)
        ha hb description
    · cases heq
      refine blocksEvery_iff.mpr (fun f hf => ?_)
      obtain ⟨e, he, hread⟩ := exists_of_blocksOf? h f hf
      exact Bool.and_eq_true_iff.mpr ⟨rfl, (ih e he).single _ hread⟩

end

/-- A schema that was read can be written. -/
theorem Schema.writable_of_ofJson? {j : Json} {s : PlainSchema} (h : Schema.ofJson? j = some s) :
    s.Writable := by
  cases j
  case object entries =>
    simp only [Schema.ofJson?, Option.bind_eq_bind, Option.bind_eq_some_iff, Option.pure_def,
      Option.some.injEq] at h
    obtain ⟨version, hversion, attributes?, ha, blocks, hb, description, -, rfl⟩ := h
    refine ⟨Json.inSigned64_of_signed? hversion, ?_⟩
    exact blockEvery_of_among? hasWritableDefault_defaultAmong (fun fs bs _ hread =>
      (Json.readsEveryBlock hasWritableDefault_defaultAmong (.object fs)).blocks fs bs rfl hread)
      ha hb description
  all_goals cases h

/-! ## What can be written is read back -/

theorem attributesOf?_attributesToJson {attributes : List (String × Attribute Unit)}
    (h : ∀ e ∈ attributes, Attribute.ofJson? e.2.toJson = some e.2) :
    attributesOf? (attributesToJson attributes) = some attributes := by
  induction attributes with
  | nil => rfl
  | cons e rest ih =>
    obtain ⟨he, hrest⟩ := List.forall_mem_cons.mp h
    simp [attributesToJson, attributesOf?, he, ih hrest]

theorem blocksOf?_blocksToJson {blocks : List (String × NestedBlock Unit)}
    (h : ∀ e ∈ blocks, NestedBlock.ofJson? e.2.toJson = some e.2) :
    blocksOf? (blocksToJson blocks) = some blocks := by
  induction blocks with
  | nil => rfl
  | cons e rest ih =>
    obtain ⟨he, hrest⟩ := List.forall_mem_cons.mp h
    simp [blocksToJson, blocksOf?, he, ih hrest]

theorem Flags.among?_of_get? {entries : Keyed Json} {flags : Flags}
    (hr : Keyed.get? entries "required" = some (.bool flags.required))
    (ho : Keyed.get? entries "optional" = some (.bool flags.optional))
    (hc : Keyed.get? entries "computed" = some (.bool flags.computed))
    (hs : Keyed.get? entries "sensitive" = some (.bool flags.sensitive)) :
    Flags.among? entries = some flags := by
  simp [Flags.among?, Json.flag?, hr, ho, hc, hs, Json.asBool?]

theorem defaultAmong_of_ne_null {entries : Keyed Json} {j : Json}
    (h : Keyed.get? entries "default" = some j) (hj : j ≠ .null) :
    defaultAmong entries = some (Value.ofJson j) := by
  rw [defaultAmong, h]
  cases j
  case null => exact absurd rfl hj
  all_goals rfl

theorem defaultAmong_of_get? {entries : Keyed Json} {a : Attribute β}
    (ha : a.hasWritableDefault = true)
    (h : Keyed.get? entries "default" = a.default.map Value.toWire) :
    defaultAmong entries = a.default := by
  unfold Attribute.hasWritableDefault at ha
  cases hd : a.default with
  | none =>
    rw [hd] at h
    rw [defaultAmong, h]
    rfl
  | some v =>
    rw [hd] at ha h
    obtain ⟨hnull, hwritable⟩ := Bool.and_eq_true_iff.mp ha
    have hwire : v.toWire ≠ .null := fun hwire => by
      rw [Value.toWire_eq_null hwire] at hnull
      cases hnull
    rw [defaultAmong_of_ne_null h hwire, Value.ofJson_toWire v hwritable]

/-- Nested attributes as a document. -/
def NestedAttributes.toJson (n : NestedAttributes β) : Json :=
  .object [("attributes", .object (attributesToJson n.attributes)),
    ("nesting_mode", .string n.mode.name)]

@[simp] theorem get?_nestedToJson (nested : Option (NestedAttributes β)) (k : String) :
    Keyed.get? (nestedToJson nested) k =
      if "nested" = k then nested.map NestedAttributes.toJson else none := by
  rcases nested with _ | ⟨mode, attributes⟩
  · exact (ite_self none).symm
  · rfl

theorem nestedOf?_toJson {n : NestedAttributes Unit}
    (h : ∀ e ∈ n.attributes, Attribute.ofJson? e.2.toJson = some e.2) :
    nestedOf? n.toJson = some (some n) := by
  obtain ⟨mode, attributes⟩ := n
  have hmode : NestingMode.among? [("attributes", .object (attributesToJson attributes)),
      ("nesting_mode", .string mode.name)] = some mode := NestingMode.among?_of_get? rfl
  have hattributes : attributesAmong? [("attributes", .object (attributesToJson attributes)),
      ("nesting_mode", .string mode.name)] = some (some attributes) := by
    rw [attributesAmong?_eq]
    simp [Keyed.get?_cons, attributesOf?_attributesToJson h]
  simp [NestedAttributes.toJson, nestedOf?, hmode, hattributes]

/-- The entries that an attribute is written as. -/
def Attribute.entries (a : Attribute β) : Keyed Json :=
  [("computed", .bool a.flags.computed)]
    ++ Json.entryIf "default" Value.toWire a.default
    ++ Json.entryIf "description" .string a.description
    ++ nestedToJson a.nested
    ++ [("optional", .bool a.flags.optional), ("required", .bool a.flags.required),
        ("sensitive", .bool a.flags.sensitive), ("type", a.type.toJson)]

theorem Attribute.toJson_eq (a : Attribute β) : a.toJson = .object a.entries := by
  cases a
  rfl

theorem Attribute.ofJson?_toJson (a : Attribute Unit)
    (h : a.every (Node.ifAttribute Attribute.hasWritableDefault) = true) :
    Attribute.ofJson? a.toJson = some a := by
  induction a using Attribute.nestedInduction with
  | step a ih =>
    obtain ⟨hwritable, hevery⟩ := a.every_iff.mp h
    have htype : Keyed.get? a.entries "type" = some a.type.toJson := by
      simp [Attribute.entries, Keyed.get?_cons]
    have hflags : Flags.among? a.entries = some a.flags := by
      apply Flags.among?_of_get? <;> simp [Attribute.entries, Keyed.get?_cons]
    have hdescription : Json.optionalText? a.entries "description" = some a.description :=
      Json.optionalText?_of_get? (by simp [Attribute.entries, Keyed.get?_cons])
    have hdefault : defaultAmong a.entries = a.default :=
      defaultAmong_of_get? hwritable (by simp [Attribute.entries, Keyed.get?_cons])
    have hnested : nestedAmong? a.entries = some a.nested := by
      have hget : Keyed.get? a.entries "nested" = a.nested.map NestedAttributes.toJson := by
        simp [Attribute.entries, Keyed.get?_cons]
      rw [nestedAmong?_eq, hget]
      cases hn : a.nested with
      | none => rfl
      | some n =>
        obtain ⟨mode, attributes⟩ := n
        rw [hn, nestedEvery, Bool.and_eq_true] at hevery
        exact nestedOf?_toJson fun e he => ih _ hn e he (attributesEvery_iff.mp hevery.2 e he)
    rw [Attribute.toJson_eq, Attribute.ofJson?]
    simp only [htype, hflags, hdescription, hnested, hdefault, Option.bind_eq_bind,
      Option.bind_some, Option.pure_def, AttributeType.ofJson?_toJson]
    cases a
    rfl

theorem attributesAmong?_of_get? {entries : Keyed Json}
    {attributes : List (String × Attribute Unit)}
    (h : attributesEvery (Node.ifAttribute Attribute.hasWritableDefault) attributes = true)
    (hget : Keyed.get? entries "attributes" =
      if attributesToJson attributes = [] then none
      else some (.object (attributesToJson attributes))) :
    ∃ attributes?, attributesAmong? entries = some attributes? ∧
      attributes?.getD [] = attributes := by
  rw [attributesAmong?_eq, hget]
  cases attributes with
  | nil => exact ⟨none, rfl, rfl⟩
  | cons e rest =>
    rw [if_neg nofun]
    refine ⟨some (e :: rest), ?_, rfl⟩
    simp only [attributesOf?_attributesToJson fun e he =>
      e.2.ofJson?_toJson (attributesEvery_iff.mp h e he)]
    rfl

theorem blocksAmong?_of_get? {entries : Keyed Json} {blocks : List (String × NestedBlock Unit)}
    (h : ∀ e ∈ blocks, NestedBlock.ofJson? e.2.toJson = some e.2)
    (hget : Keyed.get? entries "blocks" =
      if blocksToJson blocks = [] then none else some (.object (blocksToJson blocks))) :
    blocksAmong? entries = some blocks := by
  rw [blocksAmong?_eq, hget]
  cases blocks with
  | nil => rfl
  | cons e rest =>
    rw [if_neg nofun]
    exact blocksOf?_blocksToJson h

/-- The entries that a block is written as, before those that follow in a document. -/
def Block.entries (b : Block β) (more : Keyed Json) : Keyed Json :=
  Json.entriesIf "attributes" (attributesToJson b.attributes)
    ++ Json.entriesIf "blocks" (blocksToJson b.blocks)
    ++ Json.entryIf "description" .string b.description
    ++ more

theorem Block.get?_entries (b : Block β) (more : Keyed Json) {k : String}
    (ha : k ≠ "attributes") (hb : k ≠ "blocks") (hd : k ≠ "description") :
    Keyed.get? (b.entries more) k = Keyed.get? more k := by
  simp [Block.entries, ha.symm, hb.symm, hd.symm]

/-- What is read from the entries of a block, whatever follows them. -/
structure Block.ReadFrom (b : Block Unit) (entries : Keyed Json) : Prop where
  attributes : ∃ attributes?, attributesAmong? entries = some attributes? ∧
    attributes?.getD [] = b.attributes
  blocks : blocksAmong? entries = some b.blocks
  description : Json.optionalText? entries "description" = some b.description

theorem Block.readFrom_entries {b : Block Unit}
    (hb : b.every (Node.ifAttribute Attribute.hasWritableDefault) = true)
    (hblocks : ∀ e ∈ b.blocks, NestedBlock.ofJson? e.2.toJson = some e.2) {more : Keyed Json}
    (hmore : ∀ k ∈ Keyed.keys more, k ∉ ["attributes", "blocks", "description"]) :
    b.ReadFrom (b.entries more) := by
  have hnone (k : String) (hk : k ∈ ["attributes", "blocks", "description"]) :
      Keyed.get? more k = none :=
    Keyed.get?_eq_none_of_not_mem_keys fun h => hmore k h hk
  obtain ⟨_, ha, _⟩ := b.every_iff.mp hb
  refine ⟨attributesAmong?_of_get? ha ?_, blocksAmong?_of_get? hblocks ?_,
    Json.optionalText?_of_get? ?_⟩
  · simp [Block.entries, hnone]
  · simp [Block.entries, hnone]
  · simp [Block.entries, hnone]

theorem NestedBlock.toJson_eq (b : NestedBlock β) :
    b.toJson = .object (b.block.entries
      [("max_items", Json.ofNat b.maxItems.toNat), ("min_items", Json.ofNat b.minItems.toNat),
        ("nesting_mode", .string b.mode.name)]) := by
  obtain ⟨⟨attributes, blocks, description⟩, mode, minItems, maxItems⟩ := b
  rfl

theorem NestedBlock.ofJson?_toJson_of_blocks {b : NestedBlock Unit}
    (hb : b.block.every (Node.ifAttribute Attribute.hasWritableDefault) = true)
    (hblocks : ∀ e ∈ b.block.blocks, NestedBlock.ofJson? e.2.toJson = some e.2) :
    NestedBlock.ofJson? b.toJson = some b := by
  rw [NestedBlock.toJson_eq]
  generalize hmore : [("max_items", Json.ofNat b.maxItems.toNat),
    ("min_items", Json.ofNat b.minItems.toNat), ("nesting_mode", Json.string b.mode.name)] = more
  have hkeys : ∀ k ∈ Keyed.keys more, k ∉ ["attributes", "blocks", "description"] := by
    simp [← hmore, Keyed.keys]
  obtain ⟨⟨attributes?, ha, hattributes⟩, hblocks, hdescription⟩ :=
    Block.readFrom_entries hb hblocks hkeys
  have hmode : NestingMode.among? (b.block.entries more) = some b.mode := by
    apply NestingMode.among?_of_get?
    rw [Block.get?_entries _ _ (by decide) (by decide) (by decide), ← hmore]
    rfl
  have hmin : Json.count? (b.block.entries more) "min_items" = some b.minItems := by
    apply Json.count?_of_get?
    rw [Block.get?_entries _ _ (by decide) (by decide) (by decide), ← hmore]
    rfl
  have hmax : Json.count? (b.block.entries more) "max_items" = some b.maxItems := by
    apply Json.count?_of_get?
    rw [Block.get?_entries _ _ (by decide) (by decide) (by decide), ← hmore]
    rfl
  simp only [NestedBlock.ofJson?, ha, hblocks, hdescription, hmode, hmin, hmax,
    Option.bind_eq_bind, Option.bind_some, Option.pure_def, hattributes]
  obtain ⟨⟨_, _, _⟩, _, _, _⟩ := b
  rfl

theorem Block.blocks_ofJson?_toJson (b : Block Unit)
    (h : b.every (Node.ifAttribute Attribute.hasWritableDefault) = true) :
    ∀ e ∈ b.blocks, NestedBlock.ofJson? e.2.toJson = some e.2 := by
  induction b using Block.nestedInduction with
  | step b ih =>
    intro e he
    obtain ⟨_, _, hblocks⟩ := b.every_iff.mp h
    have hblock := blocksEvery_iff.mp hblocks e he
    rw [Node.every, Bool.and_eq_true] at hblock
    exact NestedBlock.ofJson?_toJson_of_blocks hblock.2 (ih e he hblock.2)

/-- A schema that can be written is read back as it was. -/
theorem Schema.ofJson?_toJson {s : PlainSchema} (h : s.Writable) :
    Schema.ofJson? s.toJson = some s := by
  have heq : s.toJson = .object (s.root.entries [("version", Json.ofInt s.version)]) := rfl
  have hkeys : ∀ k ∈ Keyed.keys [("version", Json.ofInt s.version)],
      k ∉ ["attributes", "blocks", "description"] := by
    simp [Keyed.keys]
  obtain ⟨⟨attributes?, ha, hattributes⟩, hblocks, hdescription⟩ :=
    Block.readFrom_entries h.defaults (s.root.blocks_ofJson?_toJson h.defaults) hkeys
  have hversion : Json.signed? (s.root.entries [("version", Json.ofInt s.version)]) "version"
      = some s.version := by
    apply Json.signed?_of_get? h.version
    rw [Block.get?_entries _ _ (by decide) (by decide) (by decide)]
    rfl
  rw [heq]
  simp only [Schema.ofJson?, hversion, ha, hblocks, hdescription, Option.bind_eq_bind,
    Option.bind_some, Option.pure_def, hattributes]
  obtain ⟨_, ⟨_, _, _⟩⟩ := s
  rfl

/-- Reading a document as a schema and writing it again is stable: what was written is read as the
same schema, and writing that gives the same document. -/
theorem Schema.codec_stable {j : Json} {s : PlainSchema} (h : Schema.ofJson? j = some s) :
    Schema.ofJson? s.toJson = some s ∧
      (Schema.ofJson? s.toJson).map Schema.toJson = some s.toJson := by
  have hread := Schema.ofJson?_toJson (Schema.writable_of_ofJson? h)
  exact ⟨hread, by rw [hread]; rfl⟩

/-- A document that leaves out what it can, says null where nothing is, names cases by objects and
gives nested attributes as a pair. -/
def storageDocument : Json :=
  let flags (computed : Bool) : Keyed Json := [("computed", .bool computed), ("optional", .bool true),
    ("required", .bool false), ("sensitive", .bool false)]
  let label : Json := .object ([("default", .string Value.unknownText), ("description", .null)]
    ++ flags true ++ [("type", .object [("string", .null)])])
  let port : Json := .object (flags false ++ [("type", .string "int64")])
  let rules : Json := .object ([("default", .null)] ++ flags false
    ++ [("nested", .array [.string "set", .object [("port", port)]]), ("type", .string "dynamic")])
  let disk : Json := .object [("attributes", .object []), ("min_items", Json.ofInt 1),
    ("nesting_mode", .object [("list", .object [])])]
  .object [("attributes", .object [("label", label), ("rules", rules)]),
    ("blocks", .object [("disk", disk)]), ("title", .string "unread")]

/-- What the document says. -/
def storageSchema : PlainSchema :=
  let flags (computed : Bool) : Flags := ⟨false, true, computed, false⟩
  let port : Attribute Unit := ⟨.int64, flags false, none, none, none, ()⟩
  ⟨0, ⟨[("label", ⟨.string, flags true, none, none, some .unknown, ()⟩),
    ("rules", ⟨.dynamic, flags false, none, some ⟨.set, [("port", port)]⟩, none, ()⟩)],
    [("disk", ⟨⟨[], [], none⟩, .list, 1, 0⟩)], none⟩⟩

theorem storageSchema_stable :
    Schema.ofJson? storageDocument = some storageSchema ∧
    Schema.ofJson? storageSchema.toJson = some storageSchema ∧
    (Schema.ofJson? storageSchema.toJson).map Schema.toJson = some storageSchema.toJson := by
  have hread : Schema.ofJson? storageDocument = some storageSchema := rfl
  exact ⟨hread, Schema.codec_stable hread⟩

end ProviderKit
