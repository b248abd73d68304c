import ProviderKit.Proofs.Json.Documents
import ProviderKit.Proofs.Schema.Ordered
import ProviderKit.Proofs.Schema.Rebuilds
import ProviderKit.Proofs.Value.Written

-- Values, their documents and their texts. A document says nothing of how what is unknown was
-- written down: as an unknown value, or as the text that stands for one. That is all it leaves out,
-- and the text of a value leaves out no more, as long as the numbers are integers.

namespace ProviderKit.Value

mutual
/-- The value with an unknown value for each text that stands for one. Keys stay as they are. -/
def recognised : Value → Value
  | .null => .null
  | .unknown => .unknown
  | .bool b => .bool b
  | .number n => .number n
  | .string s => if s = unknownText then .unknown else .string s
  | .list xs => .list (itemsRecognised xs)
  | .map es => .map (entriesRecognised es)
def itemsRecognised : List Value → List Value
  | [] => []
  | x :: xs => x.recognised :: itemsRecognised xs
def entriesRecognised : List (String × Value) → List (String × Value)
  | [] => []
  | (k, x) :: es => (k, x.recognised) :: entriesRecognised es
end

mutual
/-- What is read from the document of a value. -/
theorem ofJson_toWire_eq : (v : Value) → ofJson v.toWire = v.recognised
  | .null | .bool _ | .number _ => rfl
  | .unknown => by rw [toWire, ofJson, if_pos rfl, recognised]
  | .string s => by rw [toWire, ofJson, recognised]
  | .list xs => by rw [toWire, ofJson, recognised, ofItems_wireItems_eq xs]
  | .map es => by rw [toWire, ofJson, recognised, ofEntries_wireEntries_eq es]

theorem ofItems_wireItems_eq : (xs : List Value) → ofItems (wireItems xs) = itemsRecognised xs
  | [] => rfl
  | x :: xs => by
    rw [wireItems, ofItems, itemsRecognised, ofJson_toWire_eq x, ofItems_wireItems_eq xs]

theorem ofEntries_wireEntries_eq : (es : List (String × Value)) →
    ofEntries (wireEntries es) = entriesRecognised es
  | [] => rfl
  | (k, x) :: es => by
    rw [wireEntries, ofEntries, entriesRecognised, ofJson_toWire_eq x, ofEntries_wireEntries_eq es]
end

mutual
/-- What is read from a document is written as that document. -/
theorem toWire_ofJson : (j : Json) → (ofJson j).toWire = j
  | .null | .bool _ | .number _ => rfl
  | .string s => by
    rw [ofJson]
    by_cases hs : s = unknownText
    · rw [if_pos hs, toWire, hs]
    · rw [if_neg hs, toWire]
  | .array xs => by rw [ofJson, toWire, wireItems_ofItems xs]
  | .object es => by rw [ofJson, toWire, wireEntries_ofEntries es]

theorem wireItems_ofItems : (xs : List Json) → wireItems (ofItems xs) = xs
  | [] => rfl
  | x :: xs => by rw [ofItems, wireItems, toWire_ofJson x, wireItems_ofItems xs]

theorem wireEntries_ofEntries : (es : List (String × Json)) → wireEntries (ofEntries es) = es
  | [] => rfl
  | (k, x) :: es => by
    rw [ofEntries, wireEntries, toWire_ofJson x, wireEntries_ofEntries es]
end

/-- Values of one document are those that come to the same once their texts are recognised. -/
theorem toWire_eq_iff (v w : Value) : v.toWire = w.toWire ↔ v.recognised = w.recognised := by
  rw [← ofJson_toWire_eq, ← ofJson_toWire_eq]
  constructor
  · intro h
    rw [h]
  · intro h
    have hwire := congrArg toWire h
    rwa [toWire_ofJson, toWire_ofJson] at hwire

/-! ## Texts -/

/-- No number in the value is a double. -/
inductive Integral : Value → Prop
  | atom {v : Value} : v.isAtom = true → (∀ d, v ≠ .number (.double d)) → Integral v
  | list {xs : List Value} : (∀ x ∈ xs, Integral x) → Integral (.list xs)
  | map {es : List (String × Value)} : (∀ e ∈ es, Integral e.2) → Integral (.map es)

theorem Integral.of_list {xs : List Value} (h : (Value.list xs).Integral) {x : Value}
    (hx : x ∈ xs) : x.Integral := by
  cases h with
  | atom h _ => cases h
  | list h => exact h x hx

theorem Integral.of_map {es : List (String × Value)} (h : (Value.map es).Integral)
    {e : String × Value} (he : e ∈ es) : e.2.Integral := by
  cases h with
  | atom h _ => cases h
  | map h => exact h e he

@[simp] theorem integral_unknown : Value.unknown.Integral := .atom rfl (by simp)

@[simp] theorem integral_string (s : String) : (Value.string s).Integral := .atom rfl (by simp)

@[simp] theorem integral_integer (n : Int) (h : InAny64 n) :
    (Value.number (.integer n h)).Integral := .atom rfl (by simp)

theorem Integral.exists_integer {n : Number} (h : (Value.number n).Integral) :
    ∃ i hi, n = .integer i hi := by
  cases h with
  | atom _ h =>
    cases n with
    | integer i hi => exact ⟨i, hi, rfl⟩
    | double d => exact absurd rfl (h d)

theorem wireItems_eq_map (xs : List Value) : wireItems xs = xs.map toWire := by
  induction xs with
  | nil => rfl
  | cons x xs ih => rw [wireItems, List.map_cons, ih]

theorem wireEntries_eq_mapValues (es : List (String × Value)) :
    wireEntries es = Keyed.mapValues toWire es := by
  induction es with
  | nil => rfl
  | cons e es ih =>
    obtain ⟨k, x⟩ := e
    rw [wireEntries, ih]
    rfl

/-- The document of a value is read back if fewer levels are nested in the value than the reader has
left. -/
theorem readBack_toWire (v : Value) (hordered : v.Ordered) (hintegral : v.Integral) {depth : Nat}
    (hdepth : v.depth < depth) : Json.ReadBack depth v.toWire := by
  induction v using contentsInduction generalizing depth with
  | atom v hv =>
    cases v with
    | null => exact Json.readBack_null depth
    | unknown => exact Json.readBack_string depth unknownText
    | bool b => exact Json.readBack_bool depth b
    | number n =>
      obtain ⟨i, hi, rfl⟩ := hintegral.exists_integer
      exact Json.readBack_integer depth hi
    | string s => exact Json.readBack_string depth s
    | list xs => cases hv
    | map es => cases hv
  | list xs ih =>
    unfold Value.depth at hdepth
    obtain ⟨inner, rfl⟩ : ∃ inner, depth = inner + 1 := ⟨depth - 1, by omega⟩
    rw [toWire, wireItems_eq_map]
    apply Json.readBack_array (by omega)
    intro j hj
    obtain ⟨x, hx, rfl⟩ := List.mem_map.mp hj
    have hle := depth_le_itemsDepth hx
    exact ih x hx (hordered.of_list hx) (hintegral.of_list hx) (by omega)
  | map es ih =>
    unfold Value.depth at hdepth
    obtain ⟨inner, rfl⟩ : ∃ inner, depth = inner + 1 := ⟨depth - 1, by omega⟩
    rw [toWire, wireEntries_eq_mapValues]
    apply Json.readBack_object (by omega) (Keyed.ascending_mapValues _ hordered.ascending)
    intro f hf
    obtain ⟨e, he, rfl⟩ := List.mem_map.mp hf
    have hle := depth_le_entriesDepth he
    exact ih e he (hordered.of_map he) (hintegral.of_map he) (by omega)

/-- A value without doubles that is nested 127 deep at most is read back from its text, with an
unknown value for each text that stands for one. -/
theorem ofJson_parse_display {v : Value} (hordered : v.Ordered) (hintegral : v.Integral)
    (hdepth : v.depth ≤ 127) : (Json.parse v.display).map ofJson = .ok v.recognised := by
  have hread : Json.ReadBack Json.depthLimit v.toWire :=
    readBack_toWire v hordered hintegral (Nat.lt_succ_of_le hdepth)
  rw [display, Json.parse_render hread, ← ofJson_toWire_eq]
  rfl

/-- A list with an unknown value, a text that stands for one and the least number, and an entry
under such a text with the greatest number. -/
def unknownsAndEnds : Value := .map
  [("", .list [.unknown, .string unknownText,
      .number (.integer (-9223372036854775808) (by decide))]),
    (unknownText, .number (.integer 18446744073709551615 (by decide)))]

/-- The text in the list is recognised, and the key stays. -/
theorem unknownsAndEnds_read_back :
    unknownsAndEnds.Ordered ∧ unknownsAndEnds.Integral ∧ unknownsAndEnds.depth ≤ 127 ∧
      (Json.parse unknownsAndEnds.display).map ofJson = .ok (.map
        [("", .list [.unknown, .unknown,
            .number (.integer (-9223372036854775808) (by decide))]),
          (unknownText, .number (.integer 18446744073709551615 (by decide)))]) := by
  have hordered : unknownsAndEnds.Ordered := by
    apply ordered_of_keys (by decide)
    simp only [List.forall_mem_cons, List.not_mem_nil, false_implies, implies_true, and_true]
    refine ⟨.list ?_, .atom rfl⟩
    simpa using Ordered.atom (v := .number (.integer (-9223372036854775808) (by decide))) rfl
  have hintegral : unknownsAndEnds.Integral := by
    apply Integral.map
    simp only [List.forall_mem_cons, List.not_mem_nil, false_implies, implies_true, and_true]
    refine ⟨.list ?_, by simp⟩
    simp
  have hdepth : unknownsAndEnds.depth ≤ 127 := by decide
  exact ⟨hordered, hintegral, hdepth, ofJson_parse_display hordered hintegral hdepth⟩

end ProviderKit.Value
