import ProviderKit.Json.Printer

-- The values of configurations, plans and states. A value is null, known, or unknown:
-- an unknown value will be known only once a change has been carried out. Lists hold the
-- elements of lists and of sets; maps hold the entries of maps and the contents of
-- objects and blocks. Which it is, the schema says.

namespace ProviderKit

inductive Value where
  | null
  | unknown
  | bool (value : Bool)
  | number (value : Number)
  | string (text : String)
  | list (items : List Value)
  | map (entries : List (String × Value))

namespace Value

instance : Inhabited Value := ⟨.null⟩

/-! ## Kinds -/

inductive Kind where
  | null | unknown | bool | number | string | list | map
  deriving DecidableEq

def Kind.name : Kind → String
  | .null => "null"
  | .unknown => "unknown"
  | .bool => "bool"
  | .number => "number"
  | .string => "string"
  | .list => "list"
  | .map => "map"

def kind : Value → Kind
  | .null => .null
  | .unknown => .unknown
  | .bool _ => .bool
  | .number _ => .number
  | .string _ => .string
  | .list _ => .list
  | .map _ => .map

def isNull : Value → Bool
  | .null => true
  | _ => false

def isUnknown : Value → Bool
  | .unknown => true
  | _ => false

/-- Neither null nor unknown; there may be unknown values inside. -/
def isKnown (v : Value) : Bool := !v.isNull && !v.isUnknown

mutual
/-- No unknown value stands anywhere in the value. -/
def isFullyKnown : Value → Bool
  | .unknown => false
  | .list items => allFullyKnown items
  | .map entries => entriesFullyKnown entries
  | _ => true
def allFullyKnown : List Value → Bool
  | [] => true
  | x :: xs => x.isFullyKnown && allFullyKnown xs
def entriesFullyKnown : List (String × Value) → Bool
  | [] => true
  | (_, x) :: es => x.isFullyKnown && entriesFullyKnown es
end

/-! ## Equality -/

mutual
/-- Equal as values: unknown equals unknown, and numbers compare as numbers. -/
def same : Value → Value → Bool
  | .null, .null => true
  | .unknown, .unknown => true
  | .bool a, .bool b => a = b
  | .number a, .number b => a.same b
  | .string a, .string b => a = b
  | .list xs, .list ys => sameItems xs ys
  | .map xs, .map ys => sameEntries xs ys
  | _, _ => false
def sameItems : List Value → List Value → Bool
  | [], [] => true
  | x :: xs, y :: ys => x.same y && sameItems xs ys
  | _, _ => false
def sameEntries : List (String × Value) → List (String × Value) → Bool
  | [], [] => true
  | (k, x) :: xs, (l, y) :: ys => k = l && x.same y && sameEntries xs ys
  | _, _ => false
end

mutual
theorem same_self : (v : Value) → v.same v = true
  | .null | .unknown => rfl
  | .bool _ | .string _ => by simp [same]
  | .number n => by simp [same, n.same_self]
  | .list xs => by simp [same, sameItems_self xs]
  | .map es => by simp [same, sameEntries_self es]
theorem sameItems_self : (xs : List Value) → sameItems xs xs = true
  | [] => rfl
  | x :: xs => by simp [sameItems, same_self x, sameItems_self xs]
theorem sameEntries_self : (es : List (String × Value)) → sameEntries es es = true
  | [] => rfl
  | (k, x) :: es => by simp [sameEntries, same_self x, sameEntries_self es]
end

/-! ## Contents -/

def asText? : Value → Option String
  | .string s => some s
  | _ => none

def asBool? : Value → Option Bool
  | .bool b => some b
  | _ => none

def asNumber? : Value → Option Number
  | .number n => some n
  | _ => none

def asItems? : Value → Option (List Value)
  | .list xs => some xs
  | _ => none

def asEntries? : Value → Option (Keyed Value)
  | .map es => some es
  | _ => none

/-- The entry of a map under a key; a value that is no map has none. -/
def entry? : Value → String → Option Value
  | .map es, key => Keyed.get? es key
  | _, _ => none

/-- The entry of a map under a key, or null. -/
def entryOrNull (v : Value) (key : String) : Value := (v.entry? key).getD .null

/-- The item of a list at an index, or null. -/
def itemOrNull (v : Value) (i : Nat) : Value := ((v.asItems?.getD [])[i]?).getD .null

/-- The first item of a list that equals an element, or null. -/
def elementOrNull (v element : Value) : Value :=
  ((v.asItems?.getD []).find? fun item => item.same element).getD .null

/-! ## Depth -/

mutual
/-- How many levels of lists and maps the value is built of. -/
def depth : Value → Nat
  | .list items => itemsDepth items + 1
  | .map entries => entriesDepth entries + 1
  | _ => 0
def itemsDepth : List Value → Nat
  | [] => 0
  | x :: xs => max x.depth (itemsDepth xs)
def entriesDepth : List (String × Value) → Nat
  | [] => 0
  | (_, x) :: es => max x.depth (entriesDepth es)
end

end Value

end ProviderKit
