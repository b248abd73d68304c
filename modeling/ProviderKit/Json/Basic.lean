import ProviderKit.Keyed
import ProviderKit.Number

-- JSON documents, with objects as dictionaries: keys ascend and none occurs twice.

namespace ProviderKit

inductive Json where
  | null
  | bool (value : Bool)
  | number (value : Number)
  | string (text : String)
  | array (items : List Json)
  | object (entries : List (String × Json))

namespace Json

instance : Inhabited Json := ⟨.null⟩

/-! ## Equality -/

mutual
/-- Equal as documents: numbers compare as numbers, so both zeros are equal, and an
integer never equals a double. -/
def same : Json → Json → Bool
  | .null, .null => true
  | .bool a, .bool b => a = b
  | .number a, .number b => a.same b
  | .string a, .string b => a = b
  | .array xs, .array ys => sameItems xs ys
  | .object xs, .object ys => sameEntries xs ys
  | _, _ => false
def sameItems : List Json → List Json → Bool
  | [], [] => true
  | x :: xs, y :: ys => x.same y && sameItems xs ys
  | _, _ => false
def sameEntries : List (String × Json) → List (String × Json) → Bool
  | [], [] => true
  | (k, x) :: xs, (l, y) :: ys => k = l && x.same y && sameEntries xs ys
  | _, _ => false
end

mutual
theorem same_self : (j : Json) → j.same j = true
  | .null => by rw [same]
  | .bool _ | .string _ => by simp [same]
  | .number n => by simp [same, n.same_self]
  | .array xs => by simp [same, sameItems_self xs]
  | .object es => by simp [same, sameEntries_self es]
theorem sameItems_self : (xs : List Json) → sameItems xs xs = true
  | [] => by rw [sameItems]
  | x :: xs => by simp [sameItems, same_self x, sameItems_self xs]
theorem sameEntries_self : (es : List (String × Json)) → sameEntries es es = true
  | [] => by rw [sameEntries]
  | (k, x) :: es => by simp [sameEntries, same_self x, sameEntries_self es]
end

/-! ## Parts -/

/-- The entry of an object under a key. -/
def get? : Json → String → Option Json
  | .object entries, key => Keyed.get? entries key
  | _, _ => none

def asText? : Json → Option String
  | .string s => some s
  | _ => none

def asBool? : Json → Option Bool
  | .bool b => some b
  | _ => none

/-- The integer a number is written as; a double is none, whatever it is worth. -/
def asInt? : Json → Option Int
  | .number (.integer n _) => some n
  | _ => none

def asItems? : Json → Option (List Json)
  | .array xs => some xs
  | _ => none

def asEntries? : Json → Option (Keyed Json)
  | .object es => some es
  | _ => none

/-- The object of a list of entries in any order, later entries counting. -/
def ofEntries (entries : List (String × Json)) : Json :=
  .object (Keyed.ofEntries entries)

/-- An integer as a document; past the 64-bit range there is none, and null stands for it. -/
def ofInt (n : Int) : Json :=
  match Number.ofInt? n with
  | some m => .number m
  | none => .null

def ofNat (n : Nat) : Json := ofInt n

end Json

end ProviderKit
