import ProviderKit.Proofs.Value.Contents
import ProviderKit.Value.Document

-- Values as documents: what is read from a document can be written and read again. Only a text
-- that stands for an unknown value is read as something else.

namespace ProviderKit.Value

mutual
/-- No text in the value is the one that stands for an unknown value. -/
def isWritable : Value → Bool
  | .null | .unknown | .bool _ | .number _ => true
  | .string s => s ≠ unknownText
  | .list xs => itemsWritable xs
  | .map es => entriesWritable es
def itemsWritable : List Value → Bool
  | [] => true
  | x :: xs => x.isWritable && itemsWritable xs
def entriesWritable : List (String × Value) → Bool
  | [] => true
  | (_, x) :: es => x.isWritable && entriesWritable es
end

mutual
theorem isWritable_ofJson : (j : Json) → (ofJson j).isWritable = true
  | .null | .bool _ | .number _ => rfl
  | .string s => by
    rw [ofJson]
    split
    · rfl
    · next h => rw [isWritable, decide_eq_true h]
  | .array xs => by rw [ofJson, isWritable, itemsWritable_ofItems xs]
  | .object es => by rw [ofJson, isWritable, entriesWritable_ofEntries es]

theorem itemsWritable_ofItems : (xs : List Json) → itemsWritable (ofItems xs) = true
  | [] => rfl
  | x :: xs => by
    rw [ofItems, itemsWritable, isWritable_ofJson x, itemsWritable_ofItems xs]
    rfl

theorem entriesWritable_ofEntries :
    (es : List (String × Json)) → entriesWritable (ofEntries es) = true
  | [] => rfl
  | (_, x) :: es => by
    rw [ofEntries, entriesWritable, isWritable_ofJson x, entriesWritable_ofEntries es]
    rfl
end

mutual
/-- A value that can be written is read back from its document. -/
theorem ofJson_toWire : (v : Value) → v.isWritable = true → ofJson v.toWire = v
  | .null, _ | .bool _, _ | .number _, _ => rfl
  | .unknown, _ => by rw [toWire, ofJson, if_pos rfl]
  | .string _, h => if_neg (of_decide_eq_true h)
  | .list xs, h => by rw [toWire, ofJson, ofItems_wireItems xs h]
  | .map es, h => by rw [toWire, ofJson, ofEntries_wireEntries es h]

theorem ofItems_wireItems : (xs : List Value) → itemsWritable xs = true →
    ofItems (wireItems xs) = xs
  | [], _ => rfl
  | x :: xs, h => by
    obtain ⟨hx, hxs⟩ := Bool.and_eq_true_iff.mp h
    rw [wireItems, ofItems, ofJson_toWire x hx, ofItems_wireItems xs hxs]

theorem ofEntries_wireEntries : (es : List (String × Value)) → entriesWritable es = true →
    ofEntries (wireEntries es) = es
  | [], _ => rfl
  | (k, x) :: es, h => by
    obtain ⟨hx, hes⟩ := Bool.and_eq_true_iff.mp h
    rw [wireEntries, ofEntries, ofJson_toWire x hx, ofEntries_wireEntries es hes]
end

theorem ofJson_eq_null {j : Json} (h : ofJson j = .null) : j = .null := by
  cases j
  case null => rfl
  case string s =>
    rw [ofJson] at h
    split at h <;> cases h
  all_goals cases h

theorem toWire_eq_null {v : Value} (h : v.toWire = .null) : v = .null := by
  cases v
  case null => rfl
  all_goals cases h

end ProviderKit.Value
