import ProviderKit.Fault

-- Reading and writing values at paths, and turning a value into a document when nothing
-- in it is unknown.

namespace ProviderKit.Value

/-! ## Reading -/

/-- What one step leads to. Names of attributes and keys of maps lead to map entries,
indexes and elements to list items; no step leads anywhere from another value. -/
def step? : Value → Step → Option Value
  | .map es, .field name => Keyed.get? es name
  | .map es, .key k => Keyed.get? es k
  | .list xs, .index i => xs[i]?
  | .list xs, .element e => xs.find? fun item => item.same e
  | _, _ => none

/-- Follow steps, naming in the fault how far they led. -/
def follow (walked : Path) : Value → List Step → Except Fault Value
  | v, [] => .ok v
  | v, s :: steps =>
    match v.step? s with
    | some next => next.follow (walked.push s) steps
    | none => .error (.invalidStep walked s.display)

/-- The value at a path. -/
def atPath (v : Value) (path : Path) : Except Fault Value := v.follow .root path.steps

/-- The value at a path, or null where the path leads nowhere. -/
def atPathOrNull (v : Value) (path : Path) : Value :=
  match v.atPath path with
  | .ok found => found
  | .error _ => .null

/-! ## Writing -/

/-- What a write leaves behind: the value afterwards, also when the write failed half
way. -/
structure Written where
  value : Value
  outcome : Except Fault Unit

/-- Null becomes an empty object under a step to a field. -/
def opened : Value → Step → Value
  | .null, .field _ => .map []
  | v, _ => v

/-- Write a value where steps lead, making objects and entries that are not there yet. -/
def writeAlong (new : Value) (walked : Path) : List Step → Value → Written
  | [], _ => ⟨new, .ok ()⟩
  | s :: steps, v =>
    let current := v.opened s
    let failed : Written := ⟨current, .error (.invalidStep walked s.display)⟩
    let onEntry (es : Keyed Value) (key : String) : Written :=
      let w := writeAlong new (walked.push s) steps ((Keyed.get? es key).getD .null)
      ⟨.map (Keyed.insert es key w.value), w.outcome⟩
    let onItem (xs : List Value) (i : Nat) : Written :=
      match xs[i]? with
      | some item =>
        let w := writeAlong new (walked.push s) steps item
        ⟨.list (xs.set i w.value), w.outcome⟩
      | none => failed
    match s, current with
    | .field name, .map es => onEntry es name
    | .key k, .map es => onEntry es k
    | .index i, .list xs => onItem xs i
    | .element e, .list xs =>
      match xs.findIdx? fun item => item.same e with
      | some i => onItem xs i
      | none => failed
    | _, _ => failed

/-- Write a value at a path. -/
def setAtPath (v : Value) (path : Path) (new : Value) : Written :=
  writeAlong new .root path.steps v

/-! ## Documents of known values -/

mutual
/-- The document of a value, unless something in it is unknown; the first unknown value
in order is named. -/
def toJsonAt (path : Path) : Value → Except Fault Json
  | .null => .ok .null
  | .unknown => .error (.unknownValue path)
  | .bool b => .ok (.bool b)
  | .number n => .ok (.number n)
  | .string s => .ok (.string s)
  | .list xs => do return .array (← jsonItems path 0 xs)
  | .map es => do return .object (← jsonEntries path es)
def jsonItems (path : Path) (i : Nat) : List Value → Except Fault (List Json)
  | [] => .ok []
  | x :: xs => do
    let j ← toJsonAt (path.index i) x
    return j :: (← jsonItems path (i + 1) xs)
def jsonEntries (path : Path) : List (String × Value) → Except Fault (List (String × Json))
  | [] => .ok []
  | (k, x) :: es => do
    let j ← toJsonAt (path.field k) x
    return (k, j) :: (← jsonEntries path es)
end

/-- The document of a value, unless something in it is unknown. -/
def toJson (v : Value) : Except Fault Json := v.toJsonAt .root

end ProviderKit.Value
