import ProviderKit.Schema.Basic
import ProviderKit.Diagnostic

-- Checking values against attribute types. Null and unknown values have no type of their
-- own and pass everywhere.

namespace ProviderKit

/-! ## Integers -/

/-- A double counts as a 64-bit integer when it is whole and no further out than the ends
of the signed range, both of which are doubles themselves. -/
def Double.isInt64 (d : Double) : Bool :=
  match d.toInt? with
  | some n => -9223372036854775808 ≤ n && n ≤ 9223372036854775808
  | none => false

/-- A number counts as a 64-bit integer when it is one, or when the double nearest to it
does. -/
def Number.isInt64 (n : Number) : Bool :=
  match n with
  | .integer value _ => InSigned64 value || (n.nearestDouble.map Double.isInt64).getD false
  | .double d => d.isInt64

/-! ## Collections -/

/-- Put together what is reported of each item of a list, at its index. -/
def reportItems (report : Path → Value → Diagnostics) (path : Path) : Nat → List Value → Diagnostics
  | _, [] => []
  | i, x :: xs => report (path.index i) x ++ reportItems report path (i + 1) xs

/-- Put together what is reported of each element of a set, at its value. -/
def reportElements (report : Path → Value → Diagnostics) (path : Path) (xs : List Value) :
    Diagnostics :=
  xs.flatMap fun x => report (path.element x) x

/-- Put together what is reported of each entry of a map, at its key. -/
def reportEntries (report : Path → Value → Diagnostics) (path : Path) (es : Keyed Value) :
    Diagnostics :=
  es.flatMap fun e => report (path.key e.1) e.2

/-! ## Types -/

def wrongType (path : Path) (expected : String) (found : Value) : Diagnostic :=
  (Diagnostic.error "Incorrect attribute value type"
    ("Inappropriate value for attribute " ++ path.display ++ ": expected " ++ expected ++ ", got "
      ++ found.kind.name)).atPath path

mutual
/-- What is wrong with a value of a type. -/
def AttributeType.report : AttributeType → Path → Value → Diagnostics
  | _, _, .null => []
  | _, _, .unknown => []
  | .string, path, v => if v.asText?.isSome then [] else [wrongType path "string" v]
  | .int64, path, v =>
    if (v.asNumber?.map Number.isInt64).getD false then [] else [wrongType path "int64" v]
  | .float64, path, v => if v.asNumber?.isSome then [] else [wrongType path "number" v]
  | .number, path, v => if v.asNumber?.isSome then [] else [wrongType path "number" v]
  | .bool, path, v => if v.asBool?.isSome then [] else [wrongType path "bool" v]
  | .list element, path, v =>
    match v.asItems? with
    | some xs => reportItems element.report path 0 xs
    | none => [wrongType path "list" v]
  | .set element, path, v =>
    match v.asItems? with
    | some xs => reportElements element.report path xs
    | none => [wrongType path "set" v]
  | .map element, path, v =>
    match v.asEntries? with
    | some es => reportEntries element.report path es
    | none => [wrongType path "map" v]
  | .object fields, path, v =>
    match v.asEntries? with
    | some es => reportFields fields path es
    | none => [wrongType path "object" v]
  | .dynamic, _, _ => []

/-- What is wrong with the fields that are present; the others are not missed. -/
def reportFields : List (String × AttributeType) → Path → Keyed Value → Diagnostics
  | [], _, _ => []
  | (name, type) :: rest, path, es =>
    (match Keyed.get? es name with
      | some v => type.report (path.field name) v
      | none => []) ++ reportFields rest path es
end

end ProviderKit
